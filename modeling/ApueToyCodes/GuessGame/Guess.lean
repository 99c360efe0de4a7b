/-!
# `GuessGame.Guess` — the number-guessing game of `lab7` (Guess.cpp)

`CreatNum` draws a secret of four different digits by rejection, `istrue` scores a guess against it, and
`main` plays ten rounds. A `char` is a byte; the arrays `Num_List`, `true_num` and `input_num` are lists of
as many bytes as the loops of the source visit.

The values of `rand()` after the two `srand` calls are a stream, and `fuel` bounds the turns of the
rejection loop, which need not end. Standard input is the list of its bytes: `cin >> c` skips white space
and leaves `c` as it is at the end of input. Standard output is the list of the texts written to `cout`, a
line or a prompt each.
-/

namespace GuessGame

/-- The bytes of an ASCII text. -/
def chars (s : String) : List UInt8 := s.toList.map Char.toUInt8

/-- `NO_POSSIBLE_CHAR` -/
def noPossibleChar : UInt8 := '#'.toUInt8

/-- `DIGIT_NUM` -/
abbrev digitNum : Nat := 10

/-- `ARR_LEN` -/
abbrev arrLen : Nat := 4

/-! ## CreatNum -/

/-- The loop of `CreatNum`: `k` values of `rand()` have been used, `numList` holds the cells of `Num_List`
    filled so far, `count` of them. -/
def creatNumLoop (rand : Nat → Nat) : Nat → Nat → List UInt8 → List UInt8 → Option (List UInt8)
  | 0,        _, _,       _       => none
  | fuel + 1, k, saveNum, numList =>
    if numList.length < arrLen then
      let inum := rand k % 10
      if (saveNum.getD inum 0).toNat = inum then creatNumLoop rand fuel (k + 1) saveNum numList
      else
        creatNumLoop rand fuel (k + 1) (saveNum.set inum (UInt8.ofNat inum))
          (numList ++ [UInt8.ofNat (inum + 48)])
    else some numList

/-- `CreatNum`: what it leaves in `Num_List`; `none` if the loop has not ended. -/
def creatNum (rand : Nat → Nat) (fuel : Nat) : Option (List UInt8) :=
  creatNumLoop rand fuel 0 (List.replicate digitNum noPossibleChar) []

/-! ## istrue -/

/-- The inner loop of `istrue` from `input_num[j]` on, for the character `c` at `true_num[i]`: the counters
    `a` and `b` after the `break`. -/
def istrueInner (c : UInt8) (i : Nat) : Nat → List UInt8 → Nat × Nat → Nat × Nat
  | _, [],      ab     => ab
  | j, d :: ds, (a, b) =>
    if c = d then (if i = j then (a + 1, b) else (a, b + 1)) else istrueInner c i (j + 1) ds (a, b)

/-- The outer loop of `istrue` from `true_num[i]` on. -/
def istrueOuter (inputNum : List UInt8) : Nat → List UInt8 → Nat × Nat → Nat × Nat
  | _, [],      ab => ab
  | i, c :: cs, ab => istrueOuter inputNum (i + 1) cs (istrueInner c i 0 inputNum ab)

/-- `istrue` on two arrays of `len` characters: the array it returns. -/
def istrue (trueNum inputNum : List UInt8) : List UInt8 :=
  let ab := istrueOuter inputNum 0 trueNum (0, 0)
  [UInt8.ofNat (ab.1 + 48), 'A'.toUInt8, UInt8.ofNat (ab.2 + 48), 'B'.toUInt8]

/-! ## main -/

/-- `isspace` -/
def isspace (c : UInt8) : Bool := (9 ≤ c && c ≤ 13) || c == 32

/-- `cin >> input[i]` for the cells of `input` in order: the cells after it and what is left to read. -/
def readGuess : List UInt8 → List UInt8 → List UInt8 × List UInt8
  | [],           stdin => ([], stdin)
  | cell :: input, stdin =>
    match stdin.dropWhile isspace with
    | []        => (cell :: (readGuess input []).1, (readGuess input []).2)
    | c :: rest => (c :: (readGuess input rest).1, (readGuess input rest).2)

/-- The last `n` turns of the loop of `main`: the texts written, and `flag`. -/
def rounds (trueNum : List UInt8) : Nat → List UInt8 → List UInt8 → List (List UInt8) × Bool
  | 0,     _,     _     => ([], false)
  | n + 1, input, stdin =>
    let r := readGuess input stdin
    let result := istrue trueNum r.1
    if result.getD 0 0 = '4'.toUInt8 then ([chars "please: ", chars "right!\n"], true)
    else
      let rest := rounds trueNum n r.1 r.2
      (chars "please: " :: (result ++ chars "\n") :: rest.1, rest.2)

/-- `main`: the texts written to `cout`. `input` is what the array holds before the first guess. -/
def main (rand : Nat → Nat) (fuel : Nat) (input stdin : List UInt8) : Option (List (List UInt8)) :=
  match creatNum rand fuel with
  | none => none
  | some trueNum =>
    let r := rounds trueNum 10 input stdin
    some ((trueNum ++ chars "\n") :: (r.1 ++ if r.2 then [] else [chars "over\n"]))

/-! ## The guesses -/

/-- The guess of round `k`: what `input` holds after `k + 1` rounds of reading. -/
def guess (input stdin : List UInt8) : Nat → List UInt8
  | 0     => (readGuess input stdin).1
  | k + 1 => guess (readGuess input stdin).1 (readGuess input stdin).2 k

end GuessGame
