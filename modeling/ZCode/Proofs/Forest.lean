/-
  The forest of child lists in an object table.

  * `ObjectTable.Forest t m lists` says that memory holds exactly these child lists: following the
    child of an object and then siblings visits its list and ends, and the lists hold the objects
    whose parent it is, each once.
  * The search for the sibling before an object finds it (`findBefore_eq`), so that removing an
    object erases it from its list (`Forest.removed`), and inserting puts it in front of another one
    (`Forest.inserted`).  Nothing but links in static memory can keep them from it.
  * `remove_insert_forest` puts this together for the objects of a story.
-/
import Mathlib.Data.List.Nodup
import Mathlib.Data.List.Perm.Subperm
import ZCode.Proofs.Links
import ZCode.Proofs.Protected

namespace ZCode.ObjectTable

/-! ## Chains of siblings -/

/-- Following siblings from an object visits the list and ends. -/
inductive Chain (t : ObjectTable) (m : Memory) : UInt16 → List UInt16 → Prop
  | nil : Chain t m 0 []
  | cons {o next : UInt16} {l : List UInt16} : t.IsObject o → t.sibling m o = .ok next →
      Chain t m next l → Chain t m o (o :: l)

variable {t : ObjectTable} {m m' : Memory} {o q : UInt16} {l : List UInt16}

theorem Chain.congr {a : UInt16} (h : t.Chain m a l)
    (hs : ∀ x ∈ l, t.sibling m' x = t.sibling m x) : t.Chain m' a l := by
  induction h with
  | nil => exact .nil
  | cons ho hnext _ ih =>
    obtain ⟨hhead, htail⟩ := List.forall_mem_cons.1 hs
    exact .cons ho (hhead.trans hnext) (ih htail)

/-- An object is taken out of a chain by making its sibling that of the one before it. -/
theorem Chain.splice {a before next : UInt16} {l₁ l₂ : List UInt16}
    (h : t.Chain m a (l₁ ++ before :: o :: l₂)) (hnodup : (l₁ ++ before :: o :: l₂).Nodup)
    (hnext : t.sibling m o = .ok next) (hbefore : t.sibling m' before = .ok next)
    (hs : ∀ x, x ≠ before → x ≠ o → t.sibling m' x = t.sibling m x) :
    t.Chain m' a (l₁ ++ before :: l₂) := by
  induction l₁ generalizing a with
  | nil =>
    cases h with
    | cons hb hbo h =>
      cases h with
      | cons ho hno hrest =>
        obtain rfl : next = _ := Except.ok.inj (hnext.symm.trans hno)
        refine .cons hb hbefore (hrest.congr fun x hx => hs x ?_ ?_)
        · rintro rfl
          simp [hx] at hnodup
        · rintro rfl
          simp [hx] at hnodup
  | cons y l₁ ih =>
    cases h with
    | cons hy hynext hrest =>
      rw [List.cons_append, List.nodup_cons] at hnodup
      refine .cons hy ((hs y ?_ ?_).trans hynext) (ih hrest hnodup.2)
      · rintro rfl
        simp at hnodup
      · rintro rfl
        simp at hnodup

/-- The search for the object before another one in a chain finds it. -/
theorem findBefore_eq {a : UInt16} {steps : Nat} (h : t.Chain m a l) (hmem : o ∈ l) (hne : a ≠ o)
    (hsteps : l.length ≤ steps) (q : UInt16) : ∃ l₁ before l₂, l = l₁ ++ before :: o :: l₂ ∧
      t.sibling m before = .ok o ∧ t.findBefore m o q steps a = .ok before := by
  induction h generalizing steps with
  | nil => cases hmem
  | @cons a next l ha hnext hrest ih =>
    obtain ⟨k, rfl⟩ : ∃ k, steps = k + 1 := ⟨steps - 1, by simp at hsteps; omega⟩
    have hmem' : o ∈ l := (List.mem_cons.1 hmem).resolve_left fun h => hne h.symm
    have hfind : t.findBefore m o q (k + 1) a =
        if next = o then .ok a else t.findBefore m o q k next := by
      rw [findBefore, if_neg ha.ne_zero, hnext]
      rfl
    rw [hfind]
    by_cases hno : next = o
    · subst hno
      cases hrest with
      | nil => cases hmem'
      | @cons _ _ l₂ _ _ _ => exact ⟨[], a, l₂, rfl, hnext, if_pos rfl⟩
    · obtain ⟨l₁, before, l₂, rfl, hsibling, hbefore⟩ := ih hmem' hno (by simpa using hsteps)
      exact ⟨a :: l₁, before, l₂, rfl, hsibling, (if_neg hno).trans hbefore⟩

/-- A list of different objects is no longer than the table. -/
theorem length_le_count (hnodup : l.Nodup) (hobjects : ∀ x ∈ l, t.IsObject x) :
    l.length ≤ t.count.toNat := by
  have hinj : (l.map UInt16.toNat).Nodup := hnodup.map fun _ _ h => UInt16.toNat_inj.1 h
  have hsub : l.map UInt16.toNat ⊆ List.range' 1 t.count.toNat := by
    intro n hn
    obtain ⟨x, hx, rfl⟩ := List.mem_map.1 hn
    obtain ⟨h1, h2⟩ := hobjects x hx
    rw [List.mem_range'_1]
    omega
  simpa using (List.subperm_of_subset hinj hsub).length_le

/-! ## The forest -/

/-- The memory holds exactly these child lists. -/
structure Forest (t : ObjectTable) (m : Memory) (lists : UInt16 → List UInt16) : Prop where
  /-- Every parent is an object or none. -/
  parent : ∀ o, t.IsObject o → ∃ q, t.parent m o = .ok q ∧ q ≤ t.count
  /-- Following the child and then siblings visits the list and ends. -/
  visits : ∀ q, t.IsObject q → ∃ first, t.child m q = .ok first ∧ t.Chain m first (lists q)
  /-- No object is visited twice. -/
  nodup : ∀ q, t.IsObject q → (lists q).Nodup
  /-- The objects visited are those whose parent it is. -/
  mem : ∀ q, t.IsObject q → ∀ o, o ∈ lists q ↔ t.IsObject o ∧ t.parent m o = .ok q

variable {lists : UInt16 → List UInt16}

theorem Forest.not_mem_of_ne (hf : t.Forest m lists) {r : UInt16} (hr : t.IsObject r)
    (h : t.parent m o ≠ .ok r) : o ∉ lists r := fun ho => h ((hf.mem r hr o).1 ho).2

theorem Forest.congr (hf : t.Forest m lists) {lists' : UInt16 → List UInt16}
    (h : ∀ r, t.IsObject r → lists' r = lists r) : t.Forest m lists' := by
  refine ⟨hf.parent, fun r hr => ?_, fun r hr => ?_, fun r hr => ?_⟩ <;> rw [h r hr]
  · exact hf.visits r hr
  · exact hf.nodup r hr
  · exact hf.mem r hr

/-- Objects of different lists are different. -/
theorem Forest.ne_of_mem (hf : t.Forest m lists) {r x y : UInt16} (hr : t.IsObject r)
    (hq : t.IsObject q) (hne : r ≠ q) (hx : x ∈ lists r) (hy : y ∈ lists q) : x ≠ y := by
  rintro rfl
  have hxr := ((hf.mem r hr x).1 hx).2
  have hxq := ((hf.mem q hq x).1 hy).2
  exact hne (Except.ok.inj (hxr.symm.trans hxq))

/-- An object has been taken out of the list of `q`, and the other lists are as they were. -/
theorem Forest.erased (hf : t.Forest m lists) (hq : t.IsObject q)
    (ho : t.parent m o = .ok q)
    (hparent : ∀ x, t.parent m' x = if x = o then .ok 0 else t.parent m x)
    (hvisits : ∃ first, t.child m' q = .ok first ∧ t.Chain m' first ((lists q).erase o))
    (hchild : ∀ x, x ≠ q → t.child m' x = t.child m x)
    (hsibling : ∀ x, x ∉ lists q → t.sibling m' x = t.sibling m x) :
    t.Forest m' fun r => (lists r).erase o := by
  refine ⟨fun x hx => ?_, fun r hr => ?_, fun r hr => (hf.nodup r hr).erase o, fun r hr x => ?_⟩
  · rw [hparent]
    split
    · exact ⟨0, rfl, UInt16.zero_le⟩
    · exact hf.parent x hx
  · by_cases hrq : r = q
    · exact hrq ▸ hvisits
    · obtain ⟨first, hfirst, hchain⟩ := hf.visits r hr
      have hor : o ∉ lists r := hf.not_mem_of_ne hr fun h => hrq (Except.ok.inj (h.symm.trans ho))
      refine ⟨first, (hchild r hrq).trans hfirst, ?_⟩
      rw [List.erase_of_not_mem hor]
      exact hchain.congr fun x hx => hsibling x fun hxq => hf.ne_of_mem hr hq hrq hx hxq rfl
  · rw [(hf.nodup r hr).mem_erase_iff, hf.mem r hr, hparent]
    by_cases hxo : x = o
    · rw [if_pos hxo]
      simp only [hxo, ne_eq, not_true_eq_false, false_and, false_iff, not_and]
      intro _ h
      exact hr.ne_zero (Except.ok.inj h).symm
    · rw [if_neg hxo]
      simp [hxo]

/-- An object without a parent has been put in front of the list of `q`. -/
theorem Forest.pushed (hf : t.Forest m lists) (ho : t.IsObject o) (hq : t.IsObject q)
    (hfree : t.parent m o = .ok 0)
    (hparent : ∀ x, t.parent m' x = if x = o then .ok q else t.parent m x)
    (hchild : ∀ x, t.child m' x = if x = q then .ok o else t.child m x)
    (hsibling : ∀ x, t.sibling m' x = if x = o then t.child m q else t.sibling m x) :
    t.Forest m' fun r => if r = q then o :: lists r else lists r := by
  have hnot : ∀ r, t.IsObject r → o ∉ lists r := fun r hr =>
    hf.not_mem_of_ne hr fun h => hr.ne_zero (Except.ok.inj (hfree.symm.trans h)).symm
  have hkept : ∀ r, t.IsObject r → ∀ first, t.Chain m first (lists r) →
      t.Chain m' first (lists r) := by
    intro r hr first hchain
    refine hchain.congr fun x hx => ?_
    rw [hsibling, if_neg]
    rintro rfl
    exact hnot r hr hx
  refine ⟨fun x hx => ?_, fun r hr => ?_, fun r hr => ?_, fun r hr x => ?_⟩
  · rw [hparent]
    split
    · exact ⟨q, rfl, (isObject_iff.1 hq).2⟩
    · exact hf.parent x hx
  · obtain ⟨first, hfirst, hchain⟩ := hf.visits r hr
    rw [hchild]
    by_cases hrq : r = q
    · subst hrq
      rw [if_pos rfl, if_pos rfl]
      refine ⟨o, rfl, .cons ho ?_ (hkept r hr first hchain)⟩
      rw [hsibling, if_pos rfl, hfirst]
    · rw [if_neg hrq, if_neg hrq]
      exact ⟨first, hfirst, hkept r hr first hchain⟩
  · split
    · exact List.nodup_cons.2 ⟨hnot r hr, hf.nodup r hr⟩
    · exact hf.nodup r hr
  · have hmem := hf.mem r hr x
    rw [hparent]
    by_cases hrq : r = q <;> by_cases hxo : x = o
    · simp [hrq, hxo, ho]
    · simpa [hrq, hxo] using hrq ▸ hmem
    · subst hxo
      simp [hrq, hnot r hr, Ne.symm hrq]
    · simpa [hrq, hxo] using hmem

/-! ## Removing -/

/-- The link by which `o` hangs in the list of `q`. -/
inductive Hook (t : ObjectTable) (m : Memory) (lists : UInt16 → List UInt16) (o q : UInt16) :
    Link → UInt16 → Prop
  | child {l : List UInt16} : t.child m q = .ok o → lists q = o :: l → Hook t m lists o q .child q
  | sibling {x : UInt16} {l₁ l₂ : List UInt16} : t.sibling m x = .ok o →
      lists q = l₁ ++ x :: o :: l₂ → Hook t m lists o q .sibling x

/-- The memory with `next` in the place of `o` at a link, and `o` without parent and sibling. -/
def unlink (t : ObjectTable) (m : Memory) (l : Link) (x next o : UInt16) : Memory :=
  ((m.put (t.place l x) next.toUInt8).put (t.place .parent o) 0).put (t.place .sibling o) 0

/-- What the removal of an object makes of the memory. -/
inductive Removed (t : ObjectTable) (m : Memory) (lists : UInt16 → List UInt16) (o : UInt16) :
    Memory → Prop
  | alone : t.parent m o = .ok 0 → Removed t m lists o m
  | unlinked {q next x : UInt16} {l : Link} : t.IsObject q → t.parent m o = .ok q →
      t.Hook m lists o q l x → t.sibling m o = .ok next →
      Removed t m lists o (t.unlink m l x next o)

theorem Hook.isObject {l : Link} {x : UInt16} (h : t.Hook m lists o q l x) (hf : t.Forest m lists)
    (hq : t.IsObject q) : t.IsObject x := by
  cases h with
  | child => exact hq
  | sibling _ hl => exact ((hf.mem q hq x).1 (by simp [hl])).1

/-- An object hangs in the list of its parent by one of the two links that lead to it. -/
theorem Forest.hook (hf : t.Forest m lists) (hq : t.IsObject q) (ho : t.IsObject o)
    (hparent : t.parent m o = .ok q) : ∃ first, t.child m q = .ok first ∧
      if first = o then t.Hook m lists o q .child q
      else ∃ before, t.findBefore m o q (t.count.toNat + 1) first = .ok before ∧
        t.Hook m lists o q .sibling before := by
  obtain ⟨first, hfirst, hchain⟩ := hf.visits q hq
  have hmem : o ∈ lists q := (hf.mem q hq o).2 ⟨ho, hparent⟩
  refine ⟨first, hfirst, ?_⟩
  split
  · rename_i h
    subst h
    generalize hl : lists q = l at hchain
    cases hchain with
    | nil => rw [hl] at hmem; cases hmem
    | cons => exact .child hfirst hl
  · rename_i hne
    have hlength : (lists q).length ≤ t.count.toNat + 1 :=
      Nat.le_succ_of_le (length_le_count (hf.nodup q hq) fun x hx => ((hf.mem q hq x).1 hx).1)
    obtain ⟨l₁, before, l₂, hl, hsibling, hbefore⟩ := findBefore_eq hchain hmem hne hlength q
    exact ⟨before, hbefore, .sibling hsibling hl⟩

theorem ends_unlink (hfit : t.Fits m.size) (ho : t.IsObject o) {x : UInt16} (hx : t.IsObject x)
    (p : Protection) (l : Link) (next : UInt16) :
    Ends (fun _ m' => m' = t.unlink m l x next o) (t.StaticLink p)
      ((do t.setLink p l x next; t.setLink p .parent o 0; t.setLink p .sibling o 0 :
        Edit Unit) m) := by
  refine (ends_setLink hfit hx p l next).bind ?_
  rintro _ _ rfl
  refine (ends_setLink (by rwa [Memory.size_put]) ho p .parent 0).bind ?_
  rintro _ _ rfl
  exact ends_setLink (by rwa [Memory.size_put, Memory.size_put]) ho p .sibling 0

/-- **Removing succeeds but for links in static memory.**  The search for the object never fails. -/
theorem ends_remove (hfit : t.Fits m.size) (hf : t.Forest m lists) (ho : t.IsObject o)
    (p : Protection) :
    Ends (fun _ m' => t.Removed m lists o m') (t.StaticLink p) (t.remove p o m) := by
  obtain ⟨q, hparent, hle⟩ := hf.parent o ho
  have hread : Edit.read (t.parent · o) m = .ok q m := by simp only [Edit.read, hparent]
  unfold remove
  rw [if_neg ho.ne_zero, bind_ok hread]
  split
  · rename_i h
    exact .alone (h ▸ hparent)
  rename_i hq0
  have hq : t.IsObject q := isObject_iff.2 ⟨hq0, hle⟩
  obtain ⟨first, hfirst, hhook⟩ := hf.hook hq ho hparent
  obtain ⟨next, hnext⟩ : ∃ next, t.sibling m o = .ok next := ⟨_, hfit.link_eq ho .sibling⟩
  have hread₁ : Edit.read (t.child · q) m = .ok first m := by simp only [Edit.read, hfirst]
  have hread₂ : Edit.read (t.sibling · o) m = .ok next m := by simp only [Edit.read, hnext]
  rw [bind_ok hread₁, bind_ok hread₂]
  dsimp only
  split at hhook
  · rw [if_pos ‹_›]
    refine (ends_unlink hfit ho hq p .child next).mono ?_
    rintro _ _ rfl
    exact .unlinked hq hparent hhook hnext
  · obtain ⟨before, hbefore, hhook⟩ := hhook
    have hread₃ : Edit.read (t.findBefore · o q (t.count.toNat + 1) first) m = .ok before m := by
      simp only [Edit.read, hbefore]
    rw [if_neg ‹_›, bind_ok hread₃]
    refine (ends_unlink hfit ho (hhook.isObject hf hq) p .sibling next).mono ?_
    rintro _ _ rfl
    exact .unlinked hq hparent hhook hnext

theorem Fits.link_unlink (hfit : t.Fits m.size) (ho : t.IsObject o) {x next : UInt16}
    (hx : t.IsObject x) (hnext : next.toNat ≤ 255) (l k : Link) (y : UInt16) :
    t.link (t.unlink m l x next o) k y =
      if k = .sibling ∧ y = o then .ok 0
      else if k = .parent ∧ y = o then .ok 0
      else if k = l ∧ y = x then .ok next
      else t.link m k y := by
  have hfit₁ : t.Fits (m.put (t.place l x) next.toUInt8).size := by rwa [Memory.size_put]
  have hfit₂ : t.Fits ((m.put (t.place l x) next.toUInt8).put (t.place .parent o) 0).size := by
    rwa [Memory.size_put]
  have h₂ := hfit₂.link_put ho (v := 0) (by decide) .sibling k y
  have h₁ := hfit₁.link_put ho (v := 0) (by decide) .parent k y
  have h₀ := hfit.link_put hx hnext l k y
  exact h₂.trans (by rw [← h₀, ← h₁]; rfl)

/-- The list that an object was unlinked from. -/
theorem Forest.visits_unlink (hf : t.Forest m lists) (hfit : t.Fits m.size) (ho : t.IsObject o)
    (hq : t.IsObject q) {x next : UInt16} {l : Link} (hhook : t.Hook m lists o q l x)
    (hnext : t.sibling m o = .ok next) :
    ∃ first, t.child (t.unlink m l x next o) q = .ok first ∧
      t.Chain (t.unlink m l x next o) first ((lists q).erase o) := by
  have hlink := hfit.link_unlink ho (hhook.isObject hf hq) (link_le hnext) l
  obtain ⟨first, hfirst, hchain⟩ := hf.visits q hq
  have hnodup := hf.nodup q hq
  cases hhook with
  | @child rest hchild hl =>
    have hsibling (y : UInt16) (hy : y ≠ o) :
        t.sibling (t.unlink m .child q next o) y = t.sibling m y :=
      (hlink .sibling y).trans (by simp [hy, sibling])
    rw [hl] at hchain hnodup ⊢
    cases hchain with
    | cons _ hnext' hrest =>
      obtain rfl := Except.ok.inj (hnext.symm.trans hnext')
      refine ⟨next, (hlink .child q).trans (by simp), ?_⟩
      rw [List.erase_cons_head]
      refine hrest.congr fun y hy => hsibling y ?_
      rintro rfl
      exact (List.nodup_cons.1 hnodup).1 hy
  | @sibling x l₁ l₂ hx hl =>
    rw [hl] at hchain hnodup ⊢
    have hxrest : x ∉ o :: l₂ := (List.nodup_cons.1 (List.nodup_append.1 hnodup).2.1).1
    have hox : x ≠ o := fun h => hxrest (by simp [h])
    have hol : o ∉ l₁ := fun h => List.disjoint_of_nodup_append hnodup h (by simp)
    have hsibling (y : UInt16) (hyx : y ≠ x) (hy : y ≠ o) :
        t.sibling (t.unlink m .sibling x next o) y = t.sibling m y :=
      (hlink .sibling y).trans (by simp [hy, hyx, sibling])
    refine ⟨first, (hlink .child q).trans (by simpa [child] using hfirst), ?_⟩
    rw [List.erase_append_right _ hol, List.erase_cons_tail (by simpa using hox),
      List.erase_cons_head]
    exact hchain.splice hnodup hnext ((hlink .sibling x).trans (by simp [hox])) hsibling

/-- Removing an object takes its parent away, and no other object's. -/
theorem Removed.parent (h : t.Removed m lists o m') (hfit : t.Fits m.size) (hf : t.Forest m lists)
    (ho : t.IsObject o) (y : UInt16) :
    t.parent m' y = if y = o then .ok 0 else t.parent m y := by
  cases h with
  | alone hparent =>
    split
    · rename_i hy
      rw [hy, hparent]
    · rfl
  | @unlinked q next x l hq hparent hhook hnext =>
    refine (hfit.link_unlink ho (hhook.isObject hf hq) (link_le hnext) l .parent y).trans ?_
    cases hhook <;> simp [ObjectTable.parent]

/-- **Removing an object erases it from its list** and leaves it without a parent. -/
theorem Forest.removed (hfit : t.Fits m.size) (hf : t.Forest m lists) (ho : t.IsObject o)
    (h : t.Removed m lists o m') :
    t.Forest m' (fun r => (lists r).erase o) ∧ t.parent m' o = .ok 0 ∧
      (t.parent m o ≠ .ok 0 → t.sibling m' o = .ok 0) := by
  have hparents := h.parent hfit hf ho
  cases h with
  | alone hparent =>
    refine ⟨hf.congr fun r hr => List.erase_of_not_mem (hf.not_mem_of_ne hr fun h => ?_), hparent,
      fun h => absurd hparent h⟩
    exact hr.ne_zero (Except.ok.inj (hparent.symm.trans h)).symm
  | @unlinked q next x l hq hparent hhook hnext =>
    have hlink := hfit.link_unlink ho (hhook.isObject hf hq) (link_le hnext) l
    have hmem : o ∈ lists q := (hf.mem q hq o).2 ⟨ho, hparent⟩
    refine ⟨hf.erased hq hparent hparents ?_ ?_ ?_, by rw [hparents, if_pos rfl], fun _ => ?_⟩
    · exact hf.visits_unlink hfit ho hq hhook hnext
    · intro y hy
      refine (hlink .child y).trans ?_
      cases hhook <;> simp [child, hy]
    · intro y hy
      have hyo : y ≠ o := fun h => hy (h ▸ hmem)
      refine (hlink .sibling y).trans ?_
      cases hhook with
      | child => simp [sibling, hyo]
      | sibling _ hl =>
        have hyx : y ≠ x := fun h => hy (by simp [h, hl])
        simp [sibling, hyo, hyx]
    · exact (hlink .sibling o).trans (by simp)

/-- The bytes of the links of an object and of the link by which it hangs in its list. -/
def Concerns (t : ObjectTable) (m : Memory) (lists : UInt16 → List UInt16) (o : UInt16) (n : Nat) :
    Prop :=
  n = t.place .parent o ∨ n = t.place .sibling o ∨
    ∃ q l x, t.IsObject q ∧ t.parent m o = .ok q ∧ t.Hook m lists o q l x ∧ n = t.place l x

theorem Removed.size (h : t.Removed m lists o m') : m'.size = m.size := by
  cases h with
  | alone => rfl
  | unlinked => simp [unlink]

theorem Removed.get (h : t.Removed m lists o m') {n : Nat} (hn : ¬ t.Concerns m lists o n) :
    m'.get n = m.get n := by
  cases h with
  | alone => rfl
  | unlinked hq hparent hhook hnext =>
    unfold unlink
    rw [Memory.get_put_of_ne, Memory.get_put_of_ne, Memory.get_put_of_ne] <;>
      rintro rfl
    · exact hn (.inr (.inr ⟨_, _, _, hq, hparent, hhook, rfl⟩))
    · exact hn (.inl rfl)
    · exact hn (.inr (.inl rfl))

theorem Concerns.link (hf : t.Forest m lists) (ho : t.IsObject o) {n : Nat}
    (h : t.Concerns m lists o n) : ∃ l x, t.IsObject x ∧ n = t.place l x := by
  rcases h with rfl | rfl | ⟨q, l, x, hq, -, hhook, rfl⟩
  · exact ⟨_, o, ho, rfl⟩
  · exact ⟨_, o, ho, rfl⟩
  · exact ⟨l, x, hhook.isObject hf hq, rfl⟩

/-! ## Inserting -/

/-- The memory with a free object put in front of `first`, the first child of `q`. -/
def push (t : ObjectTable) (m : Memory) (first o q : UInt16) : Memory :=
  ((m.put (t.place .sibling o) first.toUInt8).put (t.place .child q) o.toUInt8).put
    (t.place .parent o) q.toUInt8

/-- What the insertion of an object makes of the memory. -/
def Inserted (t : ObjectTable) (m : Memory) (lists : UInt16 → List UInt16) (o q : UInt16)
    (m' : Memory) : Prop :=
  ∃ m₁ first, t.Removed m lists o m₁ ∧ t.child m₁ q = .ok first ∧ m' = t.push m₁ first o q

theorem ends_push (hfit : t.Fits m.size) (ho : t.IsObject o) (hq : t.IsObject q) (p : Protection)
    (first : UInt16) : Ends (fun _ m' => m' = t.push m first o q) (t.StaticLink p)
      ((do t.setLink p .sibling o first; t.setLink p .child q o; t.setLink p .parent o q :
        Edit Unit) m) := by
  refine (ends_setLink hfit ho p .sibling first).bind ?_
  rintro _ _ rfl
  refine (ends_setLink (by rwa [Memory.size_put]) hq p .child o).bind ?_
  rintro _ _ rfl
  exact ends_setLink (by rwa [Memory.size_put, Memory.size_put]) ho p .parent q

/-- **Inserting succeeds but for links in static memory.** -/
theorem ends_insert (hfit : t.Fits m.size) (hf : t.Forest m lists) (ho : t.IsObject o)
    (hq : t.IsObject q) (hne : o ≠ q) (p : Protection) :
    Ends (fun _ m' => t.Inserted m lists o q m') (t.StaticLink p) (t.insert p o q m) := by
  unfold insert
  rw [if_neg ho.ne_zero, if_neg hq.ne_zero]
  dsimp only
  rw [if_neg hne]
  refine (ends_remove hfit hf ho p).bind fun _ m₁ hremoved => ?_
  have hfit₁ : t.Fits m₁.size := hremoved.size.symm ▸ hfit
  obtain ⟨first, hfirst⟩ : ∃ first, t.child m₁ q = .ok first := ⟨_, hfit₁.link_eq hq .child⟩
  have hread : Edit.read (t.child · q) m₁ = .ok first m₁ := by simp only [Edit.read, hfirst]
  rw [bind_ok hread]
  exact (ends_push hfit₁ ho hq p first).mono fun _ m' h => ⟨m₁, first, hremoved, hfirst, h⟩

theorem Fits.link_push (hfit : t.Fits m.size) (ho : t.IsObject o) (hq : t.IsObject q)
    {first : UInt16} (hfirst : first.toNat ≤ 255) (k : Link) (y : UInt16) :
    t.link (t.push m first o q) k y =
      if k = .parent ∧ y = o then .ok q
      else if k = .child ∧ y = q then .ok o
      else if k = .sibling ∧ y = o then .ok first
      else t.link m k y := by
  have hfit₁ : t.Fits (m.put (t.place .sibling o) first.toUInt8).size := by rwa [Memory.size_put]
  have hfit₂ : t.Fits ((m.put (t.place .sibling o) first.toUInt8).put
      (t.place .child q) o.toUInt8).size := by rwa [Memory.size_put]
  rw [push, hfit₂.link_put ho (Nat.le_trans hq.2 hfit.count),
    hfit₁.link_put hq (Nat.le_trans ho.2 hfit.count), hfit.link_put ho hfirst]

/-- Inserting an object gives it its new parent, and changes no other object's. -/
theorem Inserted.parent (h : t.Inserted m lists o q m') (hfit : t.Fits m.size)
    (hf : t.Forest m lists) (ho : t.IsObject o) (hq : t.IsObject q) (y : UInt16) :
    t.parent m' y = if y = o then .ok q else t.parent m y := by
  obtain ⟨m₁, first, hremoved, hfirst, rfl⟩ := h
  have hfit₁ : t.Fits m₁.size := hremoved.size.symm ▸ hfit
  refine (hfit₁.link_push ho hq (link_le hfirst) .parent y).trans ?_
  by_cases hy : y = o
  · simp [hy]
  · have hkept := hremoved.parent hfit hf ho y
    rw [if_neg hy] at hkept
    simpa [hy, ObjectTable.parent] using hkept

/-- **Inserting an object puts it in front of the list of its new parent.** -/
theorem Forest.inserted (hfit : t.Fits m.size) (hf : t.Forest m lists) (ho : t.IsObject o)
    (hq : t.IsObject q) (h : t.Inserted m lists o q m') :
    t.Forest m' fun r => if r = q then o :: (lists r).erase o else (lists r).erase o := by
  obtain ⟨m₁, first, hremoved, hfirst, rfl⟩ := h
  have hfit₁ : t.Fits m₁.size := hremoved.size.symm ▸ hfit
  obtain ⟨hf₁, hfree, -⟩ := hf.removed hfit ho hremoved
  have hlink := hfit₁.link_push ho hq (link_le hfirst)
  refine hf₁.pushed ho hq hfree (fun x => ?_) (fun x => ?_) (fun x => ?_)
  · exact (hlink .parent x).trans (by simp [ObjectTable.parent])
  · exact (hlink .child x).trans (by simp [child])
  · exact (hlink .sibling x).trans (by simp [sibling, hfirst])

theorem Inserted.get (h : t.Inserted m lists o q m') {n : Nat}
    (hn : ¬ (t.Concerns m lists o n ∨ n = t.place .child q)) : m'.get n = m.get n := by
  obtain ⟨m₁, first, hremoved, -, rfl⟩ := h
  rw [not_or] at hn
  unfold push
  rw [Memory.get_put_of_ne, Memory.get_put_of_ne, Memory.get_put_of_ne, hremoved.get hn.1] <;>
    rintro rfl
  · exact hn.1 (.inr (.inl rfl))
  · exact hn.2 rfl
  · exact hn.1 (.inl rfl)

theorem Inserted.size (h : t.Inserted m lists o q m') : m'.size = m.size := by
  obtain ⟨m₁, first, hremoved, -, rfl⟩ := h
  simpa [push] using hremoved.size

/-! ## Sequences of moves -/

/-- A removal or an insertion. -/
inductive Move where
  | remove (o : UInt16)
  | insert (o q : UInt16)

/-- The move in memory. -/
def Move.run (t : ObjectTable) (p : Protection) : Move → Edit Unit
  | .remove o => t.remove p o
  | .insert o q => t.insert p o q

/-- The move in the child lists.  A move of object 0 does nothing, and a move into object 0 takes the
object out. -/
def Move.onLists : Move → (UInt16 → List UInt16) → UInt16 → List UInt16
  | .remove o, lists, r => (lists r).erase o
  | .insert o q, lists, r => if o ≠ 0 ∧ r = q then o :: (lists r).erase o else (lists r).erase o

theorem remove_error (ho : ¬ t.IsObject o) (h0 : o ≠ 0) (p : Protection) (m : Memory) :
    ∃ fault, t.remove p o m = .error fault m := by
  obtain ⟨fault, hparent⟩ : ∃ fault, t.parent m o = .error fault := link_error ho h0 m .parent
  refine ⟨fault, ?_⟩
  unfold remove
  rw [if_neg h0]
  exact bind_error (by simp only [Edit.read, hparent])

theorem Forest.erase_zero (hf : t.Forest m lists) {r : UInt16} (hr : t.IsObject r) :
    (lists r).erase 0 = lists r :=
  List.erase_of_not_mem fun h => ((hf.mem r hr 0).1 h).1.ne_zero rfl

theorem Forest.remove (hfit : t.Fits m.size) (hf : t.Forest m lists) {p : Protection}
    (h : t.remove p o m = .ok () m') :
    m'.size = m.size ∧ t.Forest m' fun r => (lists r).erase o := by
  by_cases ho : t.IsObject o
  · have hremoved : t.Removed m lists o m' := by
      have := ends_remove hfit hf ho p
      rwa [h] at this
    exact ⟨hremoved.size, (hf.removed hfit ho hremoved).1⟩
  · by_cases h0 : o = 0
    · subst h0
      cases h
      exact ⟨rfl, hf.congr fun r hr => hf.erase_zero hr⟩
    · obtain ⟨fault, hfault⟩ := remove_error ho h0 p m
      rw [hfault] at h
      cases h

/-- Only objects are inserted, and only into other objects. -/
theorem insert_objects {p : Protection} (h : t.insert p o q m = .ok () m') (ho : o ≠ 0)
    (hq : q ≠ 0) : t.IsObject o ∧ t.IsObject q ∧ o ≠ q := by
  unfold insert at h
  rw [if_neg ho, if_neg hq] at h
  dsimp only at h
  split at h
  · cases h
  · rename_i hne
    obtain ⟨_, m₁, hremove, h⟩ := ok_of_bind h
    obtain ⟨first, m₂, hread, -⟩ := ok_of_bind h
    refine ⟨Classical.byContradiction fun hno => ?_, Classical.byContradiction fun hno => ?_, hne⟩
    · obtain ⟨fault, hfault⟩ := remove_error hno ho p m
      rw [hfault] at hremove
      cases hremove
    · obtain ⟨fault, hchild⟩ : ∃ fault, t.child m₁ q = .error fault := link_error hno hq m₁ .child
      simp only [Edit.read, hchild] at hread
      cases hread

/-- A move that succeeds does in memory what it does in the lists. -/
theorem Forest.move (hfit : t.Fits m.size) (hf : t.Forest m lists) {p : Protection} {move : Move}
    (h : move.run t p m = .ok () m') : m'.size = m.size ∧ t.Forest m' (move.onLists lists) := by
  cases move with
  | remove o => exact hf.remove hfit h
  | insert o q =>
    have hrun : t.insert p o q m = .ok () m' := h
    by_cases h0 : o = 0
    · subst h0
      cases h
      exact ⟨rfl, hf.congr fun r hr => by simp [Move.onLists, hf.erase_zero hr]⟩
    by_cases hq0 : q = 0
    · subst hq0
      have hremove : t.remove p o m = .ok () m' := by
        unfold insert at hrun
        rwa [if_neg h0, if_pos rfl] at hrun
      obtain ⟨hsize, hf'⟩ := hf.remove hfit hremove
      exact ⟨hsize, hf'.congr fun r hr => by simp [Move.onLists, hr.ne_zero]⟩
    · obtain ⟨ho, hq, hne⟩ := insert_objects hrun h0 hq0
      have hinserted : t.Inserted m lists o q m' := by
        have := ends_insert hfit hf ho hq hne p
        rwa [hrun] at this
      refine ⟨hinserted.size, (hf.inserted hfit ho hq hinserted).congr fun r hr => ?_⟩
      simp [Move.onLists, h0]

/-- **A sequence of moves that succeed does in memory what it does in the lists.** -/
theorem Forest.moves (hfit : t.Fits m.size) (hf : t.Forest m lists) {p : Protection}
    {moves : List Move} (h : moves.forM (Move.run t p) m = .ok () m') :
    t.Forest m' (moves.foldl (fun lists move => move.onLists lists) lists) := by
  induction moves generalizing m lists with
  | nil =>
    cases h
    exact hf
  | cons move moves ih =>
    obtain ⟨_, m₁, hmove, hrest⟩ := ok_of_bind h
    obtain ⟨hsize, hf₁⟩ := hf.move hfit hmove
    exact ih (hsize.symm ▸ hfit) hf₁ hrest

/-! ## The objects of a story -/

/-- **Removals and insertions are operations on child lists.**  Removing an object erases it from the
list of its parent, keeps the order of the others and leaves it without parent and sibling.  Inserting
it puts it in front of the list of its new parent.  The other lists, the attributes and property
tables, and all bytes but those of the links concerned stay as they are.  Neither fails but for links
in static memory. -/
theorem remove_insert_forest {image m : Memory} {story : Story} {lists : UInt16 → List UInt16}
    {o q : UInt16} (hload : Story.load image = .ok story) (hsize : m.size = image.size)
    (hf : story.objects.Forest m lists) (ho : story.objects.IsObject o)
    (hq : q ≤ story.objects.count) (hne : o ≠ q) :
    let t := story.objects
    let p := story.protection
    (∀ r, t.IsObject r → t.parent m o ≠ .ok r → (lists r).erase o = lists r) ∧
    (∀ m', t.remove p o m = .ok () m' →
      t.Forest m' (fun r => (lists r).erase o) ∧ t.parent m' o = .ok 0 ∧
        (t.parent m o ≠ .ok 0 → t.sibling m' o = .ok 0) ∧ t.Kept (t.Concerns m lists o) m m') ∧
    (q ≠ 0 → ∀ m', t.insert p o q m = .ok () m' →
      t.Forest m' (fun r => if r = q then o :: (lists r).erase o else (lists r).erase o) ∧
        t.Kept (fun n => t.Concerns m lists o n ∨ n = t.place .child q) m m') ∧
    t.insert p o 0 = t.remove p o ∧
    (∀ fault m', t.remove p o m = .error fault m' ∨ t.insert p o q m = .error fault m' →
      t.StaticLink p fault) ∧
    (∀ (moves : List Move) m', moves.forM (Move.run t p) m = .ok () m' →
      t.Forest m' (moves.foldl (fun lists move => move.onLists lists) lists)) := by
  intro t p
  obtain ⟨-, hread, hobjects⟩ := Story.load_ok hload
  have hfit : t.Fits m.size := by
    rw [hsize]
    show story.objects.Fits image.size
    rw [hobjects]
    exact locate_fits image (Header.tables_lt hread _ (by simp))
  have hremove := ends_remove hfit hf ho p
  have hzero : t.insert p o 0 = t.remove p o := by
    unfold insert
    rw [if_neg ho.ne_zero, if_pos rfl]
  refine ⟨fun r hr hp => List.erase_of_not_mem (hf.not_mem_of_ne hr hp), fun m' h => ?_,
    fun hq0 m' h => ?_, hzero, fun fault m' h => ?_, fun moves m' h => hf.moves hfit h⟩
  · rw [h] at hremove
    obtain ⟨hforest, hparent, hsibling⟩ := hf.removed hfit ho hremove
    exact ⟨hforest, hparent, hsibling, hfit.kept hremove.size (fun n hn => hremove.get hn)
      fun n hn => hn.link hf ho⟩
  · have hqo : t.IsObject q := isObject_iff.2 ⟨hq0, hq⟩
    have hinsert := ends_insert hfit hf ho hqo hne p
    rw [h] at hinsert
    refine ⟨hf.inserted hfit ho hqo hinsert, hfit.kept hinsert.size (fun n hn => hinsert.get hn) ?_⟩
    rintro n (hn | rfl)
    · exact hn.link hf ho
    · exact ⟨_, q, hqo, rfl⟩
  · rcases h with h | h
    · rwa [h] at hremove
    · by_cases hq0 : q = 0
      · rw [hq0, hzero] at h
        rwa [h] at hremove
      · have hinsert := ends_insert hfit hf ho (isObject_iff.2 ⟨hq0, hq⟩) hne p
        rwa [h] at hinsert

/-- The child lists of the small story. -/
def smallLists (q : UInt16) : List UInt16 := if q = 1 then [2, 3] else []

theorem isObject_of_three (hcount : t.count = 3) : t.IsObject o ↔ o = 1 ∨ o = 2 ∨ o = 3 := by
  simp only [IsObject, hcount, ← UInt16.toNat_inj]
  simp
  omega

/-- The links of a parent with two children. -/
theorem forest_of_three (hcount : t.count = 3)
    (hlinks : [1, 2, 3].map (fun o => (t.parent m o, t.sibling m o, t.child m o)) =
      [(.ok 0, .ok 0, .ok 2), (.ok 1, .ok 3, .ok 0), (.ok 1, .ok 0, .ok 0)]) :
    t.Forest m smallLists := by
  simp only [List.map_cons, List.map_nil, List.cons.injEq, Prod.mk.injEq, and_true] at hlinks
  obtain ⟨⟨hp1, hs1, hc1⟩, ⟨hp2, hs2, hc2⟩, hp3, hs3, hc3⟩ := hlinks
  have hobject (o : UInt16) : t.IsObject o ↔ o = 1 ∨ o = 2 ∨ o = 3 := isObject_of_three hcount
  refine ⟨fun o ho => ?_, fun q hq => ?_, fun q hq => ?_, fun q hq o => ?_⟩
  · rw [hcount]
    rcases (hobject o).1 ho with rfl | rfl | rfl
    · exact ⟨0, hp1, by decide⟩
    · exact ⟨1, hp2, by decide⟩
    · exact ⟨1, hp3, by decide⟩
  · rcases (hobject q).1 hq with rfl | rfl | rfl
    · exact ⟨2, hc1, .cons ((hobject 2).2 (by simp)) hs2 (.cons ((hobject 3).2 (by simp)) hs3 .nil)⟩
    · exact ⟨0, hc2, .nil⟩
    · exact ⟨0, hc3, .nil⟩
  · unfold smallLists
    split <;> decide
  · rw [hobject]
    constructor
    · intro ho
      rcases (hobject q).1 hq with rfl | rfl | rfl <;> simp [smallLists] at ho
      rcases ho with rfl | rfl
      · exact ⟨by simp, hp2⟩
      · exact ⟨by simp, hp3⟩
    · rintro ⟨rfl | rfl | rfl, ho⟩
      · exact absurd (Except.ok.inj (hp1.symm.trans ho)).symm hq.ne_zero
      · obtain rfl := Except.ok.inj (hp2.symm.trans ho)
        simp [smallLists]
      · obtain rfl := Except.ok.inj (hp3.symm.trans ho)
        simp [smallLists]

theorem forest_small : smallStory.objects.Forest smallImage smallLists :=
  forest_of_three (by decide +kernel) (by decide +kernel)

/-- The last of two children is taken out of its parent, or moved into the first one. -/
theorem remove_insert_forest_small :
    let t := smallStory.objects
    let p := smallStory.protection
    (∃ m', t.remove p 3 smallImage = .ok () m' ∧ t.Forest m' fun r => (smallLists r).erase 3) ∧
    (∃ m', t.insert p 3 2 smallImage = .ok () m' ∧ t.Forest m' fun r =>
      if r = 2 then 3 :: (smallLists r).erase 3 else (smallLists r).erase 3) := by
  intro t p
  have ho : t.IsObject 3 := ⟨by decide, by decide +kernel⟩
  obtain ⟨-, hremove, hinsert, -, hfault, -⟩ :=
    remove_insert_forest (q := 2) load_small rfl forest_small ho (by decide +kernel) (by decide)
  -- all links of the small story lie in dynamic memory
  have hdynamic (fault : Fault) : ¬ t.StaticLink p fault := by
    rintro ⟨l, o, -, ⟨-, hle⟩, -, hstatic, -⟩
    have hcount : t.count.toNat = 3 := by decide +kernel
    have haddress : t.address.toNat = 2 := by decide +kernel
    have hbase : p.staticBase.toNat = 0x68 := by decide +kernel
    have hoffset := offset_lt l
    unfold place start defaultsSize entrySize at *
    omega
  constructor
  · cases h : t.remove p 3 smallImage with
    | ok _ m' => exact ⟨m', rfl, (hremove m' h).1⟩
    | error fault m' => exact absurd (hfault fault m' (.inl h)) (hdynamic fault)
  · cases h : t.insert p 3 2 smallImage with
    | ok _ m' => exact ⟨m', rfl, (hinsert (by decide) m' h).1⟩
    | error fault m' => exact absurd (hfault fault m' (.inr h)) (hdynamic fault)

end ZCode.ObjectTable
