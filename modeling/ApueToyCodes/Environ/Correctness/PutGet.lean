import Mathlib.Data.List.Basic
import ApueToyCodes.Environ.Putenv

/-!
# `Environ.Correctness.PutGet` — what is found in the environment after a string was put there

After a string `name=value` was put into the environment, a search for `name` is to find it, and a search for
any other name what it found before. `my_putevn` appends the string and moves the NULL. The other names are
found as before, but of two definitions of `name` the older one is; and the NULL needs a slot behind the one
that ended the array, which an array of the size of its contents does not have.
-/

namespace Environ

abbrev Str := List UInt8

/-- `=` -/
abbrev eqSign : UInt8 := '='.toUInt8

variable {env : List Str} {spare : List (Option Str)} {name other value s : Str}

/-- The array of the strings `env`, with slots behind its NULL. -/
def slots (env : List Str) (spare : List (Option Str)) : List (Option Str) :=
  env.map some ++ none :: spare

/-- The string is of the form `name=...`. -/
def Defines (name s : Str) : Prop := name ++ [eqSign] <+: s

instance (name s : Str) : Decidable (Defines name s) := inferInstanceAs (Decidable (_ <+: _))

/-- The first string before the NULL that defines `name`. -/
def lookup (name : Str) (environ : List (Option Str)) : Option Str :=
  ((environ.takeWhile Option.isSome).filterMap id).find? fun s => Defines name s

/-- The array after some writes to its slots. -/
def written (environ : List (Option Str)) (ws : List (Nat × Option Str)) :
    List (Option Str) :=
  ws.foldl (fun slots w => slots.set w.1 w.2) environ

/-- What `my_putevn` is to do with the string `name=value`. -/
structure PutGet (name value : Str) (environ : List (Option Str)) : Prop where
  inside : ∃ ws, myPutevn environ (name ++ eqSign :: value) = some ws ∧ ∀ w ∈ ws, w.1 < environ.length
  found  : ∀ ws, myPutevn environ (name ++ eqSign :: value) = some ws →
    lookup name (written environ ws) = some (name ++ eqSign :: value)
  frame  : ∀ ws, myPutevn environ (name ++ eqSign :: value) = some ws →
    ∀ other, eqSign ∉ other → other ≠ name → lookup other (written environ ws) = lookup other environ

/-! ## The search -/

theorem lookup_slots : lookup name (slots env spare) = env.find? fun s => Defines name s := by
  unfold lookup slots
  rw [List.takeWhile_append_of_pos, List.takeWhile_cons_of_neg Bool.false_ne_true, List.append_nil,
    List.filterMap_map]
  · exact congrArg (List.find? _) List.filterMap_some
  · intro a ha
    obtain ⟨s, _, rfl⟩ := List.mem_map.mp ha
    rfl

theorem defines_self : Defines name (name ++ eqSign :: value) := by
  refine ⟨value, ?_⟩
  rw [List.append_assoc]
  rfl

/-- Two names before the first `=` of one string are the same. -/
theorem Defines.name_eq (hother : eqSign ∉ other) (hname : eqSign ∉ name) (h : Defines other s)
    (h' : Defines name s) : other = name := by
  obtain ⟨v, rfl⟩ := h
  obtain ⟨v', hv⟩ := h'
  have hcut : ∀ {n : Str}, eqSign ∉ n → ∀ v, (n ++ [eqSign] ++ v).takeWhile (· ≠ eqSign) = n := by
    intro n hn v
    rw [List.append_assoc, List.takeWhile_append_of_pos]
    · exact List.append_nil n
    · intro c hc
      exact decide_eq_true fun heq => hn (heq ▸ hc)
  rw [← hcut hother v, ← hcut hname v', hv]

/-! ## The writes -/

theorem scan_slots (env : List Str) (spare : List (Option Str)) :
    ∀ i, scan (slots env spare) i = some (i + env.length) := by
  induction env with
  | nil => exact fun _ => rfl
  | cons s env ih =>
      intro i
      show scan (slots env spare) (i + 1) = _
      rw [ih, List.length_cons]
      congr 1
      omega

/-- **`my_putevn`** writes the slot of the NULL, and the one behind it. -/
theorem myPutevn_slots (s : Str) :
    myPutevn (slots env spare) s = some [(env.length, some s), (env.length + 1, none)] := by
  unfold myPutevn
  rw [scan_slots, Nat.zero_add]
  rfl

theorem slots_length : (slots env spare).length = env.length + 1 + spare.length := by
  unfold slots
  rw [List.length_append, List.length_map, List.length_cons]
  omega

/-- The array afterwards, if there was a slot behind its NULL. -/
theorem written_slots (s : Str) (slot : Option Str) :
    written (slots env (slot :: spare)) [(env.length, some s), (env.length + 1, none)]
      = slots (env ++ [s]) spare := by
  unfold written slots
  dsimp only [List.foldl_cons, List.foldl_nil]
  rw [List.set_append_right, List.set_append_right]
  · simp
  · simp
  · simp

/-- **The write behind the NULL** is inside the array where that has a slot there. -/
theorem inside_iff :
    (∃ ws, myPutevn (slots env spare) s = some ws ∧ ∀ w ∈ ws, w.1 < (slots env spare).length) ↔ spare ≠ [] := by
  rw [myPutevn_slots, slots_length]
  constructor
  · rintro ⟨ws, hws, h⟩ rfl
    obtain rfl := Option.some.inj hws
    have hlt := h (env.length + 1, none) (List.mem_cons_of_mem _ List.mem_cons_self)
    exact Nat.lt_irrefl _ hlt
  · intro hspare
    have hpos : 0 < spare.length := List.length_pos_iff.mpr hspare
    refine ⟨_, rfl, ?_⟩
    simp only [List.mem_cons, List.not_mem_nil, or_false, forall_eq_or_imp, forall_eq]
    omega

/-! ## Put and get -/

/-- A search in the environment with one more string at its end. -/
theorem lookup_append (hs : Defines name s) (slot : Option Str) :
    lookup name (slots (env ++ [s]) spare) = some ((lookup name (slots env (slot :: spare))).getD s) := by
  rw [lookup_slots, lookup_slots, List.find?_append]
  cases env.find? fun s => Defines name s with
  | some older => rfl
  | none => simp [hs]

theorem lookup_append_other (hs : ¬ Defines other s) (slot : Option Str) :
    lookup other (slots (env ++ [s]) spare) = lookup other (slots env (slot :: spare)) := by
  rw [lookup_slots, lookup_slots, List.find?_append]
  cases env.find? fun s => Defines other s with
  | some older => rfl
  | none => simp [hs]

/-- **Put and get**: `my_putevn` does as it should exactly where the array has a slot behind its NULL and the
    environment has no other definition of the name. -/
theorem putGet_iff (hname : eqSign ∉ name) :
    PutGet name value (slots env spare) ↔ spare ≠ [] ∧
      ∀ older, lookup name (slots env spare) = some older → older = name ++ eqSign :: value := by
  constructor
  · intro h
    have hspare : spare ≠ [] := inside_iff.mp h.inside
    refine ⟨hspare, fun older holder => ?_⟩
    obtain ⟨slot, rest, rfl⟩ := List.exists_cons_of_ne_nil hspare
    have hfound := h.found _ (myPutevn_slots _)
    rw [written_slots, lookup_append defines_self slot, holder] at hfound
    exact Option.some.inj hfound
  · rintro ⟨hspare, hold⟩
    refine ⟨inside_iff.mpr hspare, fun ws hws => ?_, fun ws hws other hother hne => ?_⟩
    · obtain ⟨slot, rest, rfl⟩ := List.exists_cons_of_ne_nil hspare
      obtain rfl := Option.some.inj ((myPutevn_slots _).symm.trans hws)
      rw [written_slots, lookup_append defines_self slot]
      cases hlookup : lookup name (slots env (slot :: rest)) with
      | none => rfl
      | some older => exact congrArg some (hold older hlookup)
    · obtain ⟨slot, rest, rfl⟩ := List.exists_cons_of_ne_nil hspare
      obtain rfl := Option.some.inj ((myPutevn_slots _).symm.trans hws)
      rw [written_slots]
      exact lookup_append_other (fun hdef => hne (hdef.name_eq hother hname defines_self)) slot

/-- **An array of the size of its contents** has no slot for the NULL, whatever the environment and the
    string. -/
theorem not_putGet (env : List Str) (name value : Str) : ¬ PutGet name value (slots env []) :=
  fun h => inside_iff.mp h.inside rfl

/-- The environment `A=1` gets `B=2`: the NULL is written to the third of two slots. -/
theorem putevn_writes_third_slot :
    myPutevn (slots [[65, eqSign, 49]] []) [66, eqSign, 50] = some [(1, some [66, eqSign, 50]), (2, none)] ∧
    (slots [[65, eqSign, 49]] []).length = 2 ∧ ¬ PutGet [66] [50] (slots [[65, eqSign, 49]] []) :=
  ⟨rfl, rfl, fun h => inside_iff.mp h.inside rfl⟩

end Environ
