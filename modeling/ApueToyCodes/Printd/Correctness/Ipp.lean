import ApueToyCodes.Lib.Framing
import ApueToyCodes.Printd.Ipp

/-!
# `Printd.Correctness.Ipp` — the request fits, and can be read

The attributes of the request mark their own ends, so that the printer reads from a message the names, the kind
and the document that were put in (`ippBody_read`). The buffer they are put together in is large enough for
every request of the client program only if the name of the printer is short (`requests_fit_iff`).
-/

namespace Printd
open CStr OpenServer

/-! ## Lengths -/

theorem length_be16 (n : Nat) : (be16 n).length = 2 := rfl

theorem length_addOption (tag : UInt8) (optname optval : List UInt8) :
    (addOption tag optname optval).length = 5 + optname.length + optval.length := by
  unfold addOption
  simp only [List.length_cons, List.length_append, length_be16]
  omega

theorem length_ippHeader (jobid : Nat) (uri usernm jobnm mime : List UInt8) :
    (ippHeader jobid uri usernm jobnm mime).length =
      149 + uri.length + usernm.length + jobnm.length + mime.length := by
  have h₁ : (ascii "attributes-charset").length = 18 := by decide
  have h₂ : (ascii "utf-8").length = 5 := by decide
  have h₃ : (ascii "attributes-natural-language").length = 27 := by decide
  have h₄ : (ascii "en-us").length = 5 := by decide
  have h₅ : (ascii "printer-uri").length = 11 := by decide
  have h₆ : (ascii "requesting-user-name").length = 20 := by decide
  have h₇ : (ascii "job-name").length = 8 := by decide
  have h₈ : (ascii "document-format").length = 15 := by decide
  have h₉ : (be32 jobid).length = 4 := rfl
  unfold ippHeader
  simp only [List.length_append, length_addOption, length_be16, h₁, h₂, h₃, h₄, h₅, h₆, h₇, h₈, h₉,
    List.length_cons, List.length_nil]
  omega

theorem length_printerUri (printerName : List UInt8) :
    (printerUri printerName).length = 11 + printerName.length := by
  have h₁ : (ascii "http://").length = 7 := by decide
  have h₂ : (ascii "/ipp").length = 4 := by decide
  unfold printerUri
  rw [List.length_append, List.length_append, h₁, h₂]
  omega

theorem length_mimeOf_le (req : PrintReq) : (mimeOf req).length ≤ 22 := by
  unfold mimeOf
  split <;> decide

/-- A name that ends in its array. -/
theorem length_cstr_lt {b : List UInt8} (h : 0 ∈ b) (rest : List UInt8) :
    (cstr (b ++ rest) 0).length < b.length := by
  unfold cstr
  rw [List.drop_zero]
  induction b with
  | nil => exact absurd h List.not_mem_nil
  | cons c b ih =>
      rw [List.cons_append, List.takeWhile_cons]
      split
      · rename_i hc
        have hb : 0 ∈ b := by
          rcases List.mem_cons.mp h with rfl | hb
          · contradiction
          · exact hb
        rw [List.length_cons, List.length_cons]
        exact Nat.succ_lt_succ (ih hb)
      · rw [List.length_nil, List.length_cons]
        exact Nat.succ_pos _

/-- The longest name of an array of `n + 1` bytes. -/
def fullName (n : Nat) : List UInt8 := List.replicate n 97 ++ [0]

theorem cstr_fullName (n : Nat) (rest : List UInt8) : (cstr (fullName n ++ rest) 0).length = n := by
  unfold cstr fullName
  rw [List.drop_zero, List.append_assoc]
  induction n with
  | zero => rfl
  | succ n ih =>
      rw [List.replicate_succ, List.cons_append, List.takeWhile_cons_of_pos (by decide), List.length_cons, ih]

/-- The request with the longest names. -/
def fullReq : PrintReq := ⟨0, 0, fullName 63, fullName 255⟩

theorem fullReq_terminated : fullReq.Terminated := by
  have hlen : ∀ n, (fullName n).length = n + 1 := by
    intro n
    unfold fullName
    rw [List.length_append, List.length_replicate, List.length_singleton]
  have hzero : ∀ n, 0 ∈ fullName n := fun n => List.mem_append_right _ List.mem_cons_self
  exact ⟨⟨hlen 63, hzero 63⟩, hlen 255, hzero 255⟩

/-- **What fits into `ibuf`.** All requests of the client program fit if and only if the name of the printer
    has no more than 12 bytes. -/
theorem requests_fit_iff (printerName : List UInt8) :
    (∀ jobid req behind, req.Terminated → (ippRequest printerName behind jobid req).length ≤ ibufsz) ↔
      printerName.length ≤ 12 := by
  constructor
  · intro h
    have hlen := h 1 fullReq [] fullReq_terminated
    have hmime : (mimeOf fullReq).length = 22 := by
      unfold mimeOf
      rw [if_neg (by decide)]
      decide
    unfold ippRequest at hlen
    rw [length_ippHeader, length_printerUri, hmime] at hlen
    unfold fullReq at hlen
    dsimp only at hlen
    rw [List.append_assoc, cstr_fullName, cstr_fullName] at hlen
    unfold ibufsz at hlen
    omega
  · intro h jobid req behind hreq
    have husernm : (cstr (req.usernm ++ (req.jobnm ++ behind)) 0).length < req.usernm.length :=
      length_cstr_lt hreq.usernm.2 _
    have hjobnm : (cstr (req.jobnm ++ behind) 0).length < req.jobnm.length := length_cstr_lt hreq.jobnm.2 _
    have hmime := length_mimeOf_le req
    have huserlen := hreq.usernm.1
    have hjoblen := hreq.jobnm.1
    unfold ippRequest
    rw [length_ippHeader, length_printerUri, List.append_assoc]
    unfold usernmMax jobnmMax at *
    unfold ibufsz
    omega

/-! ## Reading a message -/

theorem ofNat_inj {n m : Nat} (h : UInt8.ofNat n = UInt8.ofNat m) : n % 256 = m % 256 := by
  have htoNat := congrArg UInt8.toNat h
  rw [UInt8.toNat_ofNat', UInt8.toNat_ofNat'] at htoNat
  exact htoNat

theorem be16_inj {n m : Nat} (hn : n < 65536) (hm : m < 65536) (h : be16 n = be16 m) : n = m := by
  unfold be16 at h
  simp only [List.cons.injEq, and_true] at h
  have hhigh := ofNat_inj h.1
  have hlow := ofNat_inj h.2
  omega

theorem be32_inj {n m : Nat} (hn : n < 4294967296) (hm : m < 4294967296) (h : be32 n = be32 m) : n = m := by
  unfold be32 at h
  simp only [List.cons.injEq, and_true] at h
  have h₁ := ofNat_inj h.1
  have h₂ := ofNat_inj h.2.1
  have h₃ := ofNat_inj h.2.2.1
  have h₄ := ofNat_inj h.2.2.2
  omega

/-- The values whose lengths `add_option` can write down. -/
def Value : Type := { v : List UInt8 // v.length < 65536 }

/-- **An attribute marks its end.** -/
theorem addOption_delimits (tag : UInt8) (optname : List UInt8) :
    Framing.Delimits fun v : Value => addOption tag optname v.1 := by
  refine ⟨fun _ => List.cons_ne_nil _ _, fun {v v' r r'} h => ?_⟩
  unfold addOption at h
  simp only [List.cons_append, List.append_assoc, List.cons.injEq, true_and] at h
  have hrest := List.append_cancel_left (List.append_cancel_left h)
  obtain ⟨hlen, hval⟩ := List.append_inj hrest rfl
  obtain ⟨hv, hr⟩ := List.append_inj hval (be16_inj v.2 v'.2 hlen)
  exact ⟨Subtype.ext hv, hr⟩

theorem addOption_append_inj {tag : UInt8} {optname v v' r r' : List UInt8} (hv : v.length < 65536)
    (hv' : v'.length < 65536) (h : addOption tag optname v ++ r = addOption tag optname v' ++ r') :
    v = v' ∧ r = r' := by
  let value : Value := ⟨v, hv⟩
  let value' : Value := ⟨v', hv'⟩
  obtain ⟨heq, hr⟩ := (addOption_delimits tag optname).append
    (show addOption tag optname value.1 ++ r = addOption tag optname value'.1 ++ r' from h)
  exact ⟨congrArg Subtype.val heq, hr⟩

/-- The header and what follows it. -/
theorem ippHeader_append_inj {id id' : Nat} {uri usernm usernm' jobnm jobnm' mime mime' r r' : List UInt8}
    (hid : id < 4294967296) (hid' : id' < 4294967296) (hu : usernm.length < 65536)
    (hu' : usernm'.length < 65536) (hj : jobnm.length < 65536) (hj' : jobnm'.length < 65536)
    (hm : mime.length < 65536) (hm' : mime'.length < 65536)
    (h : ippHeader id uri usernm jobnm mime ++ r = ippHeader id' uri usernm' jobnm' mime' ++ r') :
    id = id' ∧ usernm = usernm' ∧ jobnm = jobnm' ∧ mime = mime' ∧ r = r' := by
  unfold ippHeader at h
  simp only [List.append_assoc] at h
  have h₁ := List.append_cancel_left (List.append_cancel_left h)
  obtain ⟨hnumber, h₂⟩ := List.append_inj h₁ rfl
  have h₃ := List.append_cancel_left (List.append_cancel_left (List.append_cancel_left
    (List.append_cancel_left h₂)))
  obtain ⟨rfl, h₄⟩ := addOption_append_inj hu hu' h₃
  obtain ⟨rfl, h₅⟩ := addOption_append_inj hj hj' h₄
  obtain ⟨rfl, h₆⟩ := addOption_append_inj hm hm' h₅
  exact ⟨be32_inj hid hid' hnumber, rfl, rfl, rfl, List.append_cancel_left h₆⟩

/-- A name that ends in its array does not depend on what is behind it. -/
theorem cstr_append {b : List UInt8} (h : 0 ∈ b) (rest : List UInt8) : cstr (b ++ rest) 0 = cstr b 0 := by
  unfold cstr
  rw [List.drop_zero, List.drop_zero]
  induction b with
  | nil => exact absurd h List.not_mem_nil
  | cons c b ih =>
      rw [List.cons_append, List.takeWhile_cons, List.takeWhile_cons]
      split
      · rename_i hc
        have hb : 0 ∈ b := by
          rcases List.mem_cons.mp h with rfl | hb
          · contradiction
          · exact hb
        rw [ih hb]
      · rfl

theorem mimeOf_inj {req req' : PrintReq} (h : mimeOf req = mimeOf req') :
    req.flags &&& prText ≠ 0 ↔ req'.flags &&& prText ≠ 0 := by
  have hne : ascii "text/plain" ≠ ascii "application/postscript" := by decide
  unfold mimeOf at h
  split at h
  · rename_i ht
    split at h
    · rename_i ht'
      exact iff_of_true ht ht'
    · exact absurd h hne
  · rename_i ht
    split at h
    · exact absurd h.symm hne
    · rename_i ht'
      exact iff_of_false ht ht'

/-- **The printer reads what was put in.** From a message of a job whose names end within their arrays the
    number, the names, the kind and the document can be told, whatever the document is. -/
theorem ippBody_read {printerName behind behind' doc doc' : List UInt8} {jobid jobid' : Nat}
    {req req' : PrintReq} (hid : jobid < 4294967296) (hid' : jobid' < 4294967296) (hreq : req.Terminated)
    (hreq' : req'.Terminated)
    (h : ippBody printerName behind jobid req doc = ippBody printerName behind' jobid' req' doc') :
    jobid = jobid' ∧ cstr req.usernm 0 = cstr req'.usernm 0 ∧ cstr req.jobnm 0 = cstr req'.jobnm 0 ∧
      (req.flags &&& prText ≠ 0 ↔ req'.flags &&& prText ≠ 0) ∧ doc = doc' := by
  have hshort : ∀ r : PrintReq, r.Terminated → ∀ rest, (cstr (r.usernm ++ rest) 0).length < 65536 ∧
      (cstr (r.jobnm ++ rest) 0).length < 65536 ∧ (mimeOf r).length < 65536 := by
    intro r hr rest
    have hu := length_cstr_lt hr.usernm.2 rest
    have hj := length_cstr_lt hr.jobnm.2 rest
    have hm := length_mimeOf_le r
    rw [hr.usernm.1] at hu
    rw [hr.jobnm.1] at hj
    unfold usernmMax at hu
    unfold jobnmMax at hj
    omega
  unfold ippBody ippRequest at h
  simp only [List.append_assoc] at h
  obtain ⟨hnumber, huser, hjob, hmime, hdoc⟩ := ippHeader_append_inj hid hid' (hshort req hreq _).1
    (hshort req' hreq' _).1 (hshort req hreq _).2.1 (hshort req' hreq' _).2.1 (hshort req hreq []).2.2
    (hshort req' hreq' []).2.2 h
  rw [cstr_append hreq.usernm.2, cstr_append hreq'.usernm.2] at huser
  rw [cstr_append hreq.jobnm.2, cstr_append hreq'.jobnm.2] at hjob
  have hkind := mimeOf_inj hmime
  refine ⟨hnumber, huser, hjob, hkind, ?_⟩
  simp only [hkind] at hdoc
  exact List.append_cancel_left hdoc

/-- A request of the user `a` for the job `b`, with other bytes behind the names. -/
def paddedReq (size : UInt32) (c : UInt8) : PrintReq :=
  ⟨size, 0, [97, 0] ++ List.replicate 62 c, [98, 0] ++ List.replicate 254 c⟩

theorem paddedReq_terminated (size : UInt32) (c : UInt8) : (paddedReq size c).Terminated := by
  have hlen : ∀ (a : UInt8) (n : Nat), ([a, 0] ++ List.replicate n c).length = n + 2 := by
    intro a n
    rw [List.length_append, List.length_replicate, Nat.add_comm]
    rfl
  have hzero : ∀ (a : UInt8) (n : Nat), 0 ∈ [a, 0] ++ List.replicate n c := fun a n =>
    List.mem_append_left _ (List.mem_cons_of_mem _ List.mem_cons_self)
  exact ⟨⟨hlen 97 62, hzero 97 62⟩, hlen 98 254, hzero 98 254⟩

/-- Two requests that differ behind the names. -/
theorem ippBody_read_example : paddedReq 1 7 ≠ paddedReq 2 8 ∧
    ippBody [112] [] 1 (paddedReq 1 7) [7] = ippBody [112] [0, 1] 1 (paddedReq 2 8) [7] ∧
      cstr (paddedReq 1 7).usernm 0 = cstr (paddedReq 2 8).usernm 0 ∧
      cstr (paddedReq 1 7).jobnm 0 = cstr (paddedReq 2 8).jobnm 0 := by
  have heq : ippBody [112] [] 1 (paddedReq 1 7) [7] = ippBody [112] [0, 1] 1 (paddedReq 2 8) [7] := rfl
  have hread := ippBody_read (by decide) (by decide) (paddedReq_terminated 1 7) (paddedReq_terminated 2 8) heq
  refine ⟨fun hsame => ?_, heq, hread.2.1, hread.2.2.1⟩
  exact absurd (congrArg PrintReq.size hsame) (by decide)

end Printd
