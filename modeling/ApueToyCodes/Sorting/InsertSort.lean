import Mathlib.Data.Int.Order.Basic
import ApueToyCodes.Lib.CArray

/-!
# `Sorting.InsertSort` — the sorts of `lab8/lab9` (insert_sort.cpp)

Insertion sort, Shell sort, selection sort, heap sort, merge sort and quick sort on an array in place,
function by function. Array elements (`TYPE`, an `int`) are only compared and copied, and are integers;
indices are natural numbers, but for the index of the insertion loop, which steps below zero.

A function returns `none` when it would read or write outside the array, when an index expression would
overflow an `int`, or when a loop has not ended in its `fuel`: that it returns an array at all says that none
of these happens.
-/

namespace Sorting
open CArray

/-- The value of an `int` expression that only grows; `none` is an overflow. -/
def int32 (n : Nat) : Option Nat := if n < 2147483648 then some n else none

/-! ## insert_sort, per_insert_sort, shell_insert -/

/-- The loop over `j` of `per_insert_sort` and the test after it: `tmp` is inserted at `j + d`, or at `k`
    when `j` has stepped below zero. That of `insert_sort` is the same with `d = 1` and `k = 0`, where `j` is
    then -1. -/
def insertDown (d k : Nat) (tmp : Int) : Nat → List Int → Int → Option (List Int)
  | 0,        _,   _ => none
  | fuel + 1, arr, j =>
    if 0 ≤ j then do
      let x ← read arr j.toNat
      if x > tmp then
        let arr ← write arr (j.toNat + d) x
        insertDown d k tmp fuel arr (j - d)
      else write arr (j.toNat + d) tmp
    else write arr k tmp

/-- The loop over `i` of `insert_sort`. -/
def insertSortLoop (len : Nat) : Nat → List Int → Nat → Option (List Int)
  | 0,        _,   _ => none
  | fuel + 1, arr, i =>
    if i < len then do
      let tmp ← read arr i
      let arr ← insertDown 1 0 tmp (i + 1) arr ((i : Int) - 1)
      insertSortLoop len fuel arr (i + 1)
    else some arr

/-- `insert_sort` -/
def insertSort (arr : List Int) (len : Nat) : Option (List Int) :=
  if len ≤ 1 then some arr else insertSortLoop len (len + 1) arr 1

/-- The loop over `i` of `per_insert_sort`. -/
def perInsertClass (d k len : Nat) : Nat → List Int → Nat → Option (List Int)
  | 0,        _,   _ => none
  | fuel + 1, arr, i =>
    if i < len then do
      let tmp ← read arr i
      let arr ← insertDown d k tmp (i + 1) arr ((i : Int) - d)
      let i ← int32 (i + d)
      perInsertClass d k len fuel arr i
    else some arr

/-- The last `n` turns of the loop over `k` of `per_insert_sort`. -/
def perInsertLoop (d len : Nat) : Nat → List Int → Nat → Option (List Int)
  | 0,     arr, _ => some arr
  | n + 1, arr, k => do
    let i ← int32 (k + d)
    let arr ← perInsertClass d k len (len + 1) arr i
    perInsertLoop d len n arr (k + 1)

/-- `per_insert_sort` -/
def perInsertSort (arr : List Int) (d len : Nat) : Option (List Int) := perInsertLoop d len d arr 0

/-- The loop of `shell_insert`. -/
def shellLoop (len : Nat) : Nat → List Int → Nat → Option (List Int)
  | 0,        _,   _ => none
  | fuel + 1, arr, d =>
    if d ≠ 0 then do
      let arr ← perInsertSort arr d len
      shellLoop len fuel arr (d / 2)
    else some arr

/-- `shell_insert` -/
def shellInsert (arr : List Int) (len : Nat) : Option (List Int) := shellLoop len (len + 1) arr (len / 2)

/-! ## choose_sort -/

/-- The last `n` turns of the loop over `j` of `choose_sort`: the index `k` after it. -/
def chooseMin (arr : List Int) : Nat → Nat → Int → Nat → Option Nat
  | 0,     _, _,   k => some k
  | n + 1, j, min, k => do
    let x ← read arr j
    if min > x then chooseMin arr n (j + 1) x j else chooseMin arr n (j + 1) min k

/-- The last `n` turns of the loop over `i` of `choose_sort`. -/
def chooseLoop (len : Nat) : Nat → List Int → Nat → Option (List Int)
  | 0,     arr, _ => some arr
  | n + 1, arr, i => do
    let min ← read arr i
    let k ← chooseMin arr (len - (i + 1)) (i + 1) min i
    let arr ← swap arr k i
    chooseLoop len n arr (i + 1)

/-- `choose_sort` -/
def chooseSort (arr : List Int) (len : Nat) : Option (List Int) := chooseLoop len len arr 0

/-! ## three_max, creat_heap, change_heap, heap_sort -/

/-- `lchild` -/
def lchild (i : Nat) : Option Nat := int32 (2 * i + 1)

/-- `rchild` -/
def rchild (i : Nat) : Option Nat := int32 (2 * i + 2)

/-- `three_max` -/
def threeMax (arr : List Int) (p len : Nat) : Option Nat := do
  let lc ← lchild p
  let rc ← rchild p
  if lc < len ∧ rc < len then
    let l ← read arr lc
    let r ← read arr rc
    let x ← read arr p
    if l < r then some (if r > x then rc else p) else some (if l > x then lc else p)
  else if lc < len then
    let l ← read arr lc
    let x ← read arr p
    some (if l > x then lc else p)
  else if rc < len then
    let r ← read arr rc
    let x ← read arr p
    some (if r > x then rc else p)
  else some p

/-- The loop of `creat_heap` for `ll` from `n - 1` down to 0. -/
def creatHeapLoop (len : Nat) : Nat → List Int → Option (List Int)
  | 0,      arr => some arr
  | ll + 1, arr => do
    let p ← threeMax arr ll len
    let arr ← swap arr p ll
    creatHeapLoop len ll arr

/-- `creat_heap` -/
def creatHeap (arr : List Int) (len : Nat) : Option (List Int) := creatHeapLoop len len arr

/-- The loop of `change_heap`. -/
def changeHeapLoop (len : Nat) : Nat → List Int → Nat → Option (List Int)
  | 0,        _,   _ => none
  | fuel + 1, arr, i => do
    let lc ← lchild i
    -- `rchild(i)` is looked at only where `lchild(i)` is not below `len`
    let inside ← if lc < len then some true else (rchild i).map fun rc => decide (rc < len)
    if inside then
      let p ← threeMax arr i len
      if p = i then some arr
      else
        let arr ← swap arr i p
        changeHeapLoop len fuel arr p
    else some arr

/-- `change_heap` -/
def changeHeap (arr : List Int) (len : Nat) : Option (List Int) := changeHeapLoop len (len + 1) arr 0

/-- The loop of `heap_sort`, on `l`. -/
def heapSortLoop : Nat → List Int → Option (List Int)
  | 0,     arr => some arr
  | 1,     arr => some arr
  | l + 2, arr => do
    let arr ← swap arr 0 (l + 1)
    let arr ← changeHeap arr (l + 1)
    heapSortLoop (l + 1) arr

/-- `heap_sort` -/
def heapSort (arr : List Int) (len : Nat) : Option (List Int) := do
  let arr ← creatHeap arr len
  heapSortLoop len arr

/-! ## merge, merge_sort -/

/-- The first loop of `merge`: the `n` elements of `tmpa` from `arr[j]` on. -/
def copyLoop (arr : List Int) : Nat → Nat → Option (List Int)
  | 0,     _ => some []
  | n + 1, j => do
    let x ← read arr j
    let tmpa ← copyLoop arr n (j + 1)
    some (x :: tmpa)

/-- The last loop of `merge`: what is left of `tmpa`. -/
def drainLoop (tmpa : List Int) (mi : Nat) : Nat → List Int → Nat → Nat → Nat → Option (List Int)
  | 0,        _,   _, _,  _ => none
  | fuel + 1, arr, i, lo, a =>
    if lo < mi then do
      let x ← read tmpa a
      let arr ← write arr i x
      drainLoop tmpa mi fuel arr (i + 1) (lo + 1) (a + 1)
    else some arr

/-- The main loop of `merge`; `tmpb` is the array from `mi` on. -/
def mergeLoop (tmpa : List Int) (mi hi : Nat) :
    Nat → List Int → Nat → Nat → Nat → Nat → Nat → Option (List Int)
  | 0,        _,   _, _,  _,   _, _ => none
  | fuel + 1, arr, i, lo, mid, a, b =>
    if lo < mi ∧ mid < hi then do
      let x ← read tmpa a
      let y ← read arr (mi + b)
      if x > y then
        let arr ← write arr i y
        mergeLoop tmpa mi hi fuel arr (i + 1) lo (mid + 1) a (b + 1)
      else
        let arr ← write arr i x
        mergeLoop tmpa mi hi fuel arr (i + 1) (lo + 1) mid (a + 1) b
    else drainLoop tmpa mi (mi - lo + 1) arr i lo a

/-- `merge` -/
def merge (arr : List Int) (lo mid hi : Nat) : Option (List Int) := do
  let tmpa ← copyLoop arr (mid - lo) lo
  mergeLoop tmpa mid hi (hi - lo + 1) arr lo lo mid 0 0

/-- `merge_sort` -/
def mergeSort : Nat → List Int → Nat → Nat → Option (List Int)
  | 0,        _,   _,  _  => none
  | fuel + 1, arr, lo, hi =>
    if hi - lo ≤ 1 then some arr
    else do
      let sum ← int32 (lo + hi)
      let mid := sum / 2
      let arr ← mergeSort fuel arr lo mid
      let arr ← mergeSort fuel arr mid hi
      merge arr lo mid hi

/-! ## partition, quick_sort -/

/-- The first inner loop of `partition`: `arr`, `lo` and `hi` after it. -/
def scanRight (tmp : Int) : Nat → List Int → Nat → Nat → Option (List Int × Nat × Nat)
  | 0,        _,   _,  _  => none
  | fuel + 1, arr, lo, hi =>
    if lo < hi then do
      let x ← read arr hi
      if x > tmp then scanRight tmp fuel arr lo (hi - 1)
      else
        let arr ← write arr lo x
        some (arr, lo + 1, hi)
    else some (arr, lo, hi)

/-- The second inner loop of `partition`. -/
def scanLeft (tmp : Int) : Nat → List Int → Nat → Nat → Option (List Int × Nat × Nat)
  | 0,        _,   _,  _  => none
  | fuel + 1, arr, lo, hi =>
    if lo < hi then do
      let x ← read arr lo
      if x < tmp then scanLeft tmp fuel arr (lo + 1) hi
      else
        let arr ← write arr hi x
        some (arr, lo, hi - 1)
    else some (arr, lo, hi)

/-- The outer loop of `partition`. -/
def partitionLoop (tmp : Int) : Nat → List Int → Nat → Nat → Option (List Int × Nat)
  | 0,        _,   _,  _  => none
  | fuel + 1, arr, lo, hi =>
    if lo < hi then do
      let (arr, lo, hi) ← scanRight tmp (hi - lo + 1) arr lo hi
      let (arr, lo, hi) ← scanLeft tmp (hi - lo + 1) arr lo hi
      partitionLoop tmp fuel arr lo hi
    else some (arr, lo)

/-- `partition` -/
def partition (arr : List Int) (lo hi : Nat) : Option (List Int × Nat) := do
  let tmpData ← read arr lo
  let (arr, p) ← partitionLoop tmpData (hi - lo + 1) arr lo hi
  let arr ← write arr p tmpData
  some (arr, p)

/-- `quick_sort` -/
def quickSort : Nat → List Int → Nat → Nat → Option (List Int)
  | 0,        _,   _,  _  => none
  | fuel + 1, arr, lo, hi =>
    if hi - lo ≤ 1 then some arr
    else do
      let (arr, p) ← partition arr lo (hi - 1)
      let arr ← quickSort fuel arr lo p
      quickSort fuel arr (p + 1) hi

end Sorting
