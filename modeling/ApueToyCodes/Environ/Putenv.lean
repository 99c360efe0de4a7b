/-!
# `Environ.Putenv` — putting a string into the environment, in `lab_1` (test3.c)

`environ` is an array of pointers to strings that ends with NULL. A slot is the string its pointer points to,
none for NULL, and the array a list of slots: those behind the NULL, if the array has any, are there but not
in use. The mutex is left out.
-/

namespace Environ

/-- The loop of `my_putevn` from slot `i` on, the slots left being `rest`: the first slot with NULL, `none`
    where the loop reads behind the array. -/
def scan {σ : Type} : List (Option σ) → Nat → Option Nat
  | [],             _ => none
  | none :: _,      i => some i
  | some _ :: rest, i => scan rest (i + 1)

/-- `my_putevn`: the slots it writes, and what it writes there, in order. -/
def myPutevn {σ : Type} (environ : List (Option σ)) (namevale : σ) : Option (List (Nat × Option σ)) :=
  (scan environ 0).map fun i => [(i, some namevale), (i + 1, none)]

end Environ
