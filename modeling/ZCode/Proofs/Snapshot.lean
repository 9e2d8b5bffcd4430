/-
  Reading written snapshots.

  * Decimal numerals are read back (`natValue?_toDigits`, `intValue?_literal`), and are numbers to the
    scanner (`isNumber_toDigits`).
  * Every part of a snapshot is read back over whatever stood in its place, so a written snapshot is
    read back as a whole (`Snapshot.parse_render`), provided that its signed numbers have 64 bits.
-/
import Mathlib.Data.List.TakeWhile
import ZCode.Proofs.Base64
import ZCode.Proofs.Json
import ZCode.Snapshot.Parse

namespace ZCode

/-! ## Numerals -/

theorem head_toDigits_ne_zero {n : Nat} (h : n ≠ 0) : (Nat.toDigits 10 n).head? ≠ some '0' := by
  induction n using Nat.strongRecOn with
  | ind n ih =>
    by_cases hn : n < 10
    · rw [Nat.toDigits_of_lt_base hn]
      have all : ∀ k < 10, k ≠ 0 → [k.digitChar].head? ≠ some '0' := by decide
      exact all n hn h
    · rw [Nat.toDigits_of_base_le (by omega) (by omega), List.head?_append]
      have hdigits := ih (n / 10) (by omega) (by omega)
      cases hh : (Nat.toDigits 10 (n / 10)).head? with
      | none => exact absurd (List.head?_eq_none_iff.1 hh) Nat.toDigits_ne_nil
      | some c => rwa [hh] at hdigits

theorem digit_of_mem_toDigits {n : Nat} {c : Char} (h : c ∈ Nat.toDigits 10 n) :
    c.isDigit = true :=
  Nat.isDigit_of_mem_toDigits (by decide) (by decide) h

/-- No sign stands in front of the digits. -/
theorem toDigits_eq_cons (n : Nat) :
    ∃ c rest, Nat.toDigits 10 n = c :: rest ∧ c.isDigit = true ∧ c ≠ '-' ∧
      ∀ d ∈ rest, d.isDigit = true := by
  obtain ⟨c, rest, hcons⟩ := List.exists_cons_of_ne_nil (Nat.toDigits_ne_nil (n := n) (b := 10))
  have hdigit : ∀ d ∈ c :: rest, d.isDigit = true := fun d hd =>
    digit_of_mem_toDigits (hcons ▸ hd)
  obtain ⟨hc, hrest⟩ := List.forall_mem_cons.1 hdigit
  refine ⟨c, rest, hcons, hc, ?_, hrest⟩
  rintro rfl
  exact absurd hc (by decide)

namespace Json

theorem isNumber_toDigits (n : Nat) : isNumber (Nat.toDigits 10 n) = true := by
  by_cases hn : n = 0
  · subst hn
    decide
  · obtain ⟨c, rest, hcons, hc, hminus, hrest⟩ := toDigits_eq_cons n
    have hzero : c ≠ '0' := by
      rintro rfl
      exact head_toDigits_ne_zero hn (by rw [hcons]; rfl)
    have hdrop : rest.dropWhile Char.isDigit = [] := by
      rw [List.dropWhile_eq_nil_iff]
      exact hrest
    have hinteger : afterInteger (afterMinus (c :: rest)) = some [] := by
      simp [afterMinus, hminus, afterInteger, hzero, afterDigits, hc, hdrop]
    rw [hcons, isNumber, hinteger]
    rfl

theorem isNumber_minus (n : Nat) : isNumber ('-' :: Nat.toDigits 10 n) = true := by
  obtain ⟨c, rest, hcons, -, hminus, -⟩ := toDigits_eq_cons n
  have hsame : afterMinus (Nat.toDigits 10 n) = Nat.toDigits 10 n := by
    simp [hcons, afterMinus, hminus]
  have := isNumber_toDigits n
  unfold isNumber at this ⊢
  rwa [hsame] at this

theorem isBare_of_isDigit {c : Char} (h : c.isDigit = true) : isBare c = true := by
  simp [isBare, Char.isAlphanum, h]

end Json

namespace Snapshot

open Json

theorem digitsValue?_eq {chars : List Char} (h : ∀ c ∈ chars, c.isDigit = true) (n : Nat) :
    digitsValue? n chars = some (Nat.ofDigitChars 10 chars n) := by
  induction chars generalizing n with
  | nil => rfl
  | cons c chars ih =>
    obtain ⟨hc, hchars⟩ := List.forall_mem_cons.1 h
    rw [digitsValue?, if_pos hc, ih hchars, Nat.mul_comm]
    rfl

theorem natValue?_toDigits (n : Nat) : natValue? (Nat.toDigits 10 n) = some n := by
  have hne : (Nat.toDigits 10 n).isEmpty = false := by simp [Nat.toDigits_ne_nil]
  rw [natValue?, hne, digitsValue?_eq fun c => digit_of_mem_toDigits, Nat.ofDigitChars_ten_toDigits]
  rfl

/-- A signed numeral is the digits of its absolute value, behind a minus if it is negative. -/
theorem toList_toString (n : Int) : (toString n).toList =
    if n < 0 then '-' :: Nat.toDigits 10 n.natAbs else Nat.toDigits 10 n.natAbs := by
  rw [Int.toString_eq_repr]
  cases n with
  | ofNat m => exact Nat.toList_repr
  | negSucc m =>
    rw [if_pos (Int.negSucc_lt_zero m)]
    simp [Int.repr, Nat.toList_repr]

theorem intValue?_literal (n : Int) : intValue? (toString n).toList = some n := by
  rw [toList_toString]
  split
  · rw [intValue?, natValue?_toDigits, Option.map_some, Option.some.injEq]
    omega
  · obtain ⟨c, rest, hcons, -, hminus, -⟩ := toDigits_eq_cons n.natAbs
    have hplain : intValue? (Nat.toDigits 10 n.natAbs) =
        (natValue? (Nat.toDigits 10 n.natAbs)).map fun (k : Nat) => (k : Int) := by
      rw [hcons]
      simp [intValue?, hminus]
    rw [hplain, natValue?_toDigits, Option.map_some, Option.some.injEq]
    omega

theorem readable_intJson (n : Int) : Readable 0 (intJson n) := by
  have hdigits : ∀ c ∈ Nat.toDigits 10 n.natAbs, isBare c = true := fun c hc =>
    isBare_of_isDigit (digit_of_mem_toDigits hc)
  unfold intJson
  rw [toList_toString]
  split
  · exact readable_number (isNumber_minus _) (List.forall_mem_cons.2 ⟨by decide, hdigits⟩)
  · exact readable_number (isNumber_toDigits _) hdigits

theorem readable_natJson (n : Nat) : Readable 0 (natJson n) := readable_intJson n

/-! ## Numbers and lists -/

/-- A signed number of 64 bits. -/
def Signed64 (n : Int) : Prop := -0x8000000000000000 ≤ n ∧ n < 0x8000000000000000

theorem readInt_intJson {n : Int} (h : Signed64 n) (old : Int) :
    readInt old (intJson n) = some n := by
  show (intValue? (toString n).toList).bind _ = _
  rw [intValue?_literal, Option.bind_some]
  exact if_pos h

theorem readNat_natJson {n bound : Nat} (h : n < bound) (old : Nat) :
    readNat bound old (natJson n) = some n := by
  show (natValue? n.repr.toList).bind _ = _
  rw [Nat.toList_repr, natValue?_toDigits, Option.bind_some]
  exact if_pos h

theorem readWord_natJson (w old : UInt16) : readWord old (natJson w.toNat) = some w := by
  rw [readWord, readNat_natJson w.toNat_lt, Option.map_some, UInt16.ofNat_toNat]

theorem readAddress_natJson (a old : Address) : readAddress old (natJson a.toNat) = some a := by
  rw [readAddress, readNat_natJson a.toNat_lt, Option.map_some, UInt32.ofNat_toNat]

theorem readInt?_orNull {value : Option Int} (h : ∀ n ∈ value, Signed64 n) :
    readInt? (orNull intJson value) = some value := by
  cases value with
  | none => rfl
  | some n =>
    show (readInt 0 (intJson n)).bind _ = _
    rw [readInt_intJson (h n rfl)]
    rfl

section List
variable {α : Type} {read : α → Json → Option α} {toJson : α → Json}

theorem readItems_map {values : List α} (h : ∀ v ∈ values, ∀ old, read old (toJson v) = some v)
    (fresh : α) (done old : List α) :
    readItems read fresh done old (values.map toJson) = some (done.reverse ++ values) := by
  induction values generalizing done old with
  | nil => simp [readItems]
  | cons v values ih =>
    obtain ⟨hv, hvalues⟩ := List.forall_mem_cons.1 h
    simp [readItems, hv, ih hvalues]

theorem readList_listJson {values : Option (List α)}
    (h : ∀ l ∈ values, ∀ v ∈ l, ∀ old, read old (toJson v) = some v) (fresh : α)
    (old : Option (List α)) : readList read fresh old (listJson toJson values) = some values := by
  cases values with
  | none => rfl
  | some l => simp [readList, listJson, orNull, readItems_map (h l rfl)]

theorem readable_orNull {d : Nat} (h : ∀ v, Readable d (toJson v)) (value : Option α) :
    Readable d (orNull toJson value) := by
  cases value with
  | none => exact readable_null.mono (Nat.zero_le _)
  | some v => exact h v

theorem readable_listJson {d : Nat} (h : ∀ v, Readable d (toJson v)) (values : Option (List α)) :
    Readable (d + 1) (listJson toJson values) := by
  refine readable_orNull (fun l => readable_array fun v hv => ?_) values
  obtain ⟨a, -, rfl⟩ := List.mem_map.1 hv
  exact h a

end List

/-! ## Frames -/

def fieldNames : List String :=
  ["locals", "stack", "store_to", "return_to", "version", "checksum", "memory", "routines", "pc"]

/-- Names are written in the case in which they are compared. -/
theorem foldCase_fieldNames : ∀ name ∈ fieldNames,
    String.ofList (name.toList.map foldCase) = name := by
  decide

/-- The fields of an object are read one by one. -/
theorem readObject_cons {α : Type} {readField : α → String → Json → Option α} {old : α}
    {name : String} (h : name ∈ fieldNames) {v : Json} {fields : List (List Char × Json)} :
    readObject readField old (.object ((name.toList, v) :: fields)) =
      (readField old name v).bind fun value => readObject readField value (.object fields) := by
  simp only [readObject, List.foldlM_cons, foldCase_fieldNames name h]
  rfl

theorem readable_frameJson (f : SavedFrame) : Readable 2 (frameJson f) := by
  have hword (w : UInt16) : Readable 0 (natJson w.toNat) := readable_natJson w.toNat
  have hlist (l : Option (List UInt16)) : Readable 1 (listJson (natJson ·.toNat) l) :=
    readable_listJson hword l
  have hstore : Readable 1 (orNull intJson f.storeTo) :=
    (readable_orNull readable_intJson f.storeTo).mono (by decide)
  have hreturn : Readable 1 (natJson f.returnTo.toNat) :=
    (readable_natJson f.returnTo.toNat).mono (by decide)
  apply readable_object
  simpa only [List.forall_mem_cons, List.not_mem_nil, false_implies, implies_true, and_true] using
    ⟨hlist f.locals, hlist f.stack, hstore, hreturn⟩

/-- Every field of a frame is written, so nothing is left of the frame that it is read over. -/
theorem readFrame_frameJson {f : SavedFrame} (h : ∀ v ∈ f.storeTo, Signed64 v) (old : SavedFrame) :
    readFrame old (frameJson f) = some f := by
  have hlist (l l' : Option (List UInt16)) :
      readList readWord 0 l' (listJson (natJson ·.toNat) l) = some l :=
    readList_listJson (fun _ _ w _ old => readWord_natJson w old) 0 l'
  rw [readFrame, frameJson]
  simp (disch := decide) only [readObject_cons]
  simp [readFrameField, readObject, hlist, readInt?_orNull h, readAddress_natJson]

/-! ## Snapshots -/

theorem readable_toJson (d : Snapshot) : Readable 4 d.toJson := by
  have hversion : Readable 3 (intJson d.version) := (readable_intJson d.version).mono (by decide)
  have hchecksum : Readable 3 (.text d.checksum.toList) := (readable_text _).mono (by decide)
  have hmemory : Readable 3 (orNull (fun m => .text (Base64.encode m.bytes.toList)) d.memory) :=
    (readable_orNull (fun m => readable_text _) d.memory).mono (by decide)
  have hframes : Readable 3 (listJson frameJson d.frames) :=
    readable_listJson readable_frameJson d.frames
  have hpc : Readable 3 (natJson d.pc.toNat) := (readable_natJson d.pc.toNat).mono (by decide)
  apply readable_object
  simpa only [List.forall_mem_cons, List.not_mem_nil, false_implies, implies_true, and_true] using
    ⟨hversion, hchecksum, hmemory, hframes, hpc⟩

theorem readMemory_orNull (m old : Option Memory) :
    readMemory old (orNull (fun m => .text (Base64.encode m.bytes.toList)) m) = some m := by
  cases m with
  | none => rfl
  | some m =>
    show (Base64.decode (Base64.encode m.bytes.toList)).bind _ = _
    rw [Base64.decode_encode]
    rfl

/-- The signed numbers of the snapshot have 64 bits. -/
structure Narrow (d : Snapshot) : Prop where
  version : Signed64 d.version
  storeTo : ∀ l ∈ d.frames, ∀ f ∈ l, ∀ n ∈ f.storeTo, Signed64 n

theorem ofJson?_toJson {d : Snapshot} (h : d.Narrow) : ofJson? d.toJson = some d := by
  have hframes (old : Option (List SavedFrame)) :
      readList readFrame {} old (listJson frameJson d.frames) = some d.frames :=
    readList_listJson (fun l hl f hf old => readFrame_frameJson (h.storeTo l hl f hf) old) {} old
  rw [ofJson?, toJson]
  simp (disch := decide) only [readObject_cons]
  simp [readSnapshotField, readObject, readText, readInt_intJson h.version, readMemory_orNull,
    hframes, readAddress_natJson]

/-- **A written snapshot is read back.** -/
theorem parse_render {d : Snapshot} (h : d.Narrow) : parse d.render.toList = .ok d := by
  have hjson : Json.parse? d.toJson.render = some d.toJson :=
    parse?_render (readable_toJson d) (by decide)
  rw [parse, render, String.toList_ofList, hjson, Option.bind_some, ofJson?_toJson h]

end Snapshot

end ZCode
