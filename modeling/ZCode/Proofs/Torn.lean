/-
  Changes of the object table that fail.

  * Following siblings from the child of the recorded parent either comes to an object or does not,
    whatever memory holds (`follow`).  Where it does, the search comes to the link that leads to it
    (`Hangs`, `findBefore_of_follow`): before that the chain does not repeat, so that the search is
    long enough.
  * A removal is three links written one after the other, and an insertion three more.  A link in
    static memory cannot be written, and a number that is no object has none.  What was written
    before stays written: the change is torn (`Tears`).
-/
import ZCode.Proofs.Containment

namespace ZCode.ObjectTable

variable {t : ObjectTable} {p : Protection} {m m' : Memory} {o q x next : UInt16} {l : Link}

/-! ## Following siblings -/

theorem isObject_of_link {v : UInt16} (h : t.link m l x = .ok v) (h0 : x ≠ 0) : t.IsObject x := by
  by_contra hx
  obtain ⟨fault, hfault⟩ := link_error hx h0 m l
  rw [hfault] at h
  cases h

/-- The first time that a chain comes to an object, it has met no more others than there are. -/
theorem follow_le_count {k : Nat} (ho : o ≠ 0) (h : t.follow m .sibling k x = .ok o)
    (hfirst : ∀ i < k, t.follow m .sibling i x ≠ .ok o) : k ≤ t.count.toNat := by
  have hmet : ∀ i, ∃ y, i < k → t.follow m .sibling i x = .ok y := by
    intro i
    by_cases hi : i < k
    · obtain ⟨y, hy⟩ := follow_ok_of_le h (Nat.le_of_lt hi)
      exact ⟨y, fun _ => hy⟩
    · exact ⟨0, fun h => absurd h hi⟩
  choose f hf using hmet
  have hrest : ∀ i < k, t.follow m .sibling (k - i) (f i) = .ok o := by
    intro i hi
    rw [← follow_add (hf i hi), Nat.add_sub_cancel' (Nat.le_of_lt hi), h]
  have hobject : ∀ i < k, t.IsObject (f i) := by
    intro i hi
    have hend := hrest i hi
    have h0 : f i ≠ 0 := by
      intro h0
      rw [h0, follow_null] at hend
      exact ho (Except.ok.inj hend).symm
    obtain ⟨d, hd⟩ : ∃ d, k - i = d + 1 := ⟨k - i - 1, by omega⟩
    rw [hd] at hend
    obtain ⟨z, hz, -⟩ := follow_succ_eq_ok_iff.1 hend
    exact isObject_of_link hz h0
  -- an object met twice would lead there sooner
  have hinj : ∀ i j, i < j → j < k → f i ≠ f j := by
    intro i j hij hj heq
    refine hfirst (i + (k - j)) (by omega) ?_
    rw [follow_add (hf i (by omega)), heq, hrest j hj]
  exact le_count_of_distinct hobject hinj

/-! ## The search -/

theorem findBefore_succ {steps : Nat} (h0 : x ≠ 0) (h : t.sibling m x = .ok next) :
    t.findBefore m o q (steps + 1) x =
      if next = o then .ok x else t.findBefore m o q steps next := by
  rw [findBefore, if_neg h0, h]
  rfl

/-- What the search finds is on the chain, with the object behind it. -/
theorem follow_of_findBefore {steps : Nat} {first : UInt16}
    (h : t.findBefore m o q steps first = .ok x) : ∃ k, t.follow m .sibling k first = .ok o := by
  induction steps generalizing first with
  | zero => cases h
  | succ steps ih =>
    by_cases h0 : first = 0
    · rw [findBefore, if_pos h0] at h
      cases h
    · cases hs : t.sibling m first with
      | error fault =>
        rw [findBefore, if_neg h0, hs] at h
        cases h
      | ok next =>
        rw [findBefore_succ h0 hs] at h
        split at h
        · rename_i hno
          exact ⟨1, by rw [follow_succ hs, hno]; rfl⟩
        · obtain ⟨k, hk⟩ := ih h
          exact ⟨k + 1, by rw [follow_succ hs, hk]⟩

theorem findBefore_of_follow {k steps : Nat} {first : UInt16} (ho : o ≠ 0)
    (h : t.follow m .sibling (k + 1) first = .ok o) (hfirst : ∀ i ≤ k, t.follow m .sibling i first ≠ .ok o)
    (hsteps : k < steps) (q : UInt16) : ∃ x, t.findBefore m o q steps first = .ok x ∧
      t.follow m .sibling k first = .ok x ∧ t.sibling m x = .ok o := by
  induction k generalizing first steps with
  | zero =>
    obtain ⟨steps, rfl⟩ : ∃ n, steps = n + 1 := ⟨steps - 1, by omega⟩
    obtain ⟨next, hnext, hend⟩ := follow_succ_eq_ok_iff.1 h
    obtain rfl : next = o := Except.ok.inj hend
    have h0 : first ≠ 0 := by
      rintro rfl
      exact ho (Except.ok.inj hnext).symm
    exact ⟨first, by rw [findBefore_succ h0 hnext, if_pos rfl], rfl, hnext⟩
  | succ k ih =>
    obtain ⟨steps, rfl⟩ : ∃ n, steps = n + 1 := ⟨steps - 1, by omega⟩
    obtain ⟨next, hnext, hend⟩ := follow_succ_eq_ok_iff.1 h
    have h0 : first ≠ 0 := by
      rintro rfl
      rw [follow_null] at h
      exact ho (Except.ok.inj h).symm
    have hne : next ≠ o := by
      rintro rfl
      exact hfirst 1 (Nat.le_add_left 1 k) (follow_succ hnext)
    obtain ⟨x, hfind, hx, hsibling⟩ := ih hend
      (fun i hi heq => hfirst (i + 1) (Nat.succ_le_succ hi) ((follow_succ hnext).trans heq))
      (Nat.lt_of_succ_lt_succ hsteps)
    exact ⟨x, by rw [findBefore_succ h0 hnext, if_neg hne, hfind],
      (follow_succ hnext).trans hx, hsibling⟩

/-- The link by which an object hangs below `q`: the child of `q`, or the sibling of the object before
it on the chain from there. -/
inductive Hangs (t : ObjectTable) (m : Memory) (o q : UInt16) : Link → UInt16 → Prop
  | child : t.child m q = .ok o → Hangs t m o q .child q
  | sibling {first x : UInt16} {k : Nat} : t.child m q = .ok first → t.follow m .sibling k first = .ok x →
      t.sibling m x = .ok o → (∀ i ≤ k, t.follow m .sibling i first ≠ .ok o) → Hangs t m o q .sibling x

/-- An object that the chain comes to hangs by one of its links. -/
theorem exists_hangs {first : UInt16} {k : Nat} (hchild : t.child m q = .ok first)
    (h : t.follow m .sibling k first = .ok o) : ∃ l x, t.Hangs m o q l x := by
  induction k using Nat.strongRecOn with
  | ind k ih =>
    by_cases hsooner : ∃ i < k, t.follow m .sibling i first = .ok o
    · obtain ⟨i, hi, hio⟩ := hsooner
      exact ih i hi hio
    · push Not at hsooner
      cases k with
      | zero => exact ⟨_, _, .child (hchild.trans h)⟩
      | succ k =>
        obtain ⟨x, hx⟩ := follow_ok_of_le h (Nat.le_succ k)
        have hlast : t.follow m .sibling 1 x = .ok o := by rw [← follow_add hx, h]
        obtain ⟨z, hz, hend⟩ := follow_succ_eq_ok_iff.1 hlast
        obtain rfl : z = o := Except.ok.inj hend
        exact ⟨_, _, .sibling hchild hx hz fun i hi => hsooner i (Nat.lt_succ_of_le hi)⟩

theorem Hangs.link (h : t.Hangs m o q l x) : t.link m l x = .ok o := by
  cases h with
  | child h => exact h
  | sibling _ _ h _ => exact h

theorem Hangs.reaches (h : t.Hangs m o q l x) :
    ∃ first k, t.child m q = .ok first ∧ t.follow m .sibling k first = .ok o := by
  cases h with
  | child hchild => exact ⟨o, 0, hchild, rfl⟩
  | @sibling first _ k hchild hx hsibling _ =>
    exact ⟨first, k + 1, hchild, by rw [follow_add hx, follow_succ hsibling]; rfl⟩

theorem Hangs.unique {k : Link} {y : UInt16} (h : t.Hangs m o q l x) (h' : t.Hangs m o q k y) :
    l = k ∧ x = y := by
  cases h with
  | child hchild =>
    cases h' with
    | child => exact ⟨rfl, rfl⟩
    | sibling hchild' _ _ hfirst =>
      exact absurd (hchild'.symm.trans hchild) (hfirst 0 (Nat.zero_le _))
  | @sibling first _ i hchild hx hsibling hfirst =>
    cases h' with
    | child hchild' => exact absurd (hchild.symm.trans hchild') (hfirst 0 (Nat.zero_le _))
    | @sibling first' _ j hchild' hy hsibling' hfirst' =>
      obtain rfl := Except.ok.inj (hchild.symm.trans hchild')
      have hi : t.follow m .sibling (i + 1) first = .ok o := by rw [follow_add hx, follow_succ hsibling]; rfl
      have hj : t.follow m .sibling (j + 1) first = .ok o := by rw [follow_add hy, follow_succ hsibling']; rfl
      obtain rfl : i = j := by
        have := mt (hfirst (j + 1)) (not_not_intro hj)
        have := mt (hfirst' (i + 1)) (not_not_intro hi)
        omega
      exact ⟨rfl, Except.ok.inj (hx.symm.trans hy)⟩

theorem Hangs.isObject (h : t.Hangs m o q l x) (ho : o ≠ 0) : t.IsObject x := by
  refine isObject_of_link h.link ?_
  rintro rfl
  exact ho (Except.ok.inj h.link).symm

/-! ## Removals -/

/-- Whether a link lies in dynamic memory. -/
def Writable (t : ObjectTable) (p : Protection) (l : Link) (o : UInt16) : Prop :=
  t.place l o < p.staticBase.toNat

/-- The parent stands before the sibling. -/
theorem Writable.parent (h : t.Writable p .sibling o) : t.Writable p .parent o :=
  Nat.lt_of_succ_lt h

theorem Fits.setLink_ok (hfit : t.Fits m.size) (ho : t.IsObject o) (hw : t.Writable p l o)
    (v : UInt16) : t.setLink p l o v m = .ok () (m.put (t.place l o) v.toUInt8) := by
  obtain ⟨a, -, hset⟩ := hfit.setLink_eq ho p l v
  rw [hset]
  exact if_pos hw

theorem Fits.setLink_error (hfit : t.Fits m.size) (ho : t.IsObject o) (hw : ¬ t.Writable p l o)
    (v : UInt16) : ∃ fault, t.setLink p l o v m = .error fault m := by
  obtain ⟨a, -, hset⟩ := hfit.setLink_eq ho p l v
  rw [hset]
  exact ⟨_, if_neg hw⟩

/-- An object that hangs below its recorded parent is removed by writing three links. -/
theorem remove_of_hangs (hparent : t.parent m o = .ok q) (hq : q ≠ 0) (hhangs : t.Hangs m o q l x)
    (hnext : t.sibling m o = .ok next) (p : Protection) :
    t.remove p o m = (do t.setLink p l x next; t.setLink p .parent o 0; t.setLink p .sibling o 0 :
      Edit Unit) m := by
  have ho : o ≠ 0 := by
    rintro rfl
    exact hq (Except.ok.inj hparent).symm
  have hread : Edit.read (t.parent · o) m = .ok q m := by simp only [Edit.read, hparent]
  have hread₂ : Edit.read (t.sibling · o) m = .ok next m := by simp only [Edit.read, hnext]
  unfold remove
  rw [if_neg ho, bind_ok hread, if_neg hq]
  cases hhangs with
  | child hchild =>
    have hread₁ : Edit.read (t.child · q) m = .ok o m := by simp only [Edit.read, hchild]
    rw [bind_ok hread₁, bind_ok hread₂]
    dsimp only
    rw [if_pos rfl]
  | @sibling first x k hchild hx hsibling hfirst =>
    have hread₁ : Edit.read (t.child · q) m = .ok first m := by simp only [Edit.read, hchild]
    have hreach : t.follow m .sibling (k + 1) first = .ok o := by
      rw [follow_add hx, follow_succ hsibling]
      rfl
    have hcount := follow_le_count ho hreach fun i hi => hfirst i (Nat.le_of_lt_succ hi)
    have hsteps : k < t.count.toNat + 1 := by omega
    obtain ⟨_, hfind, hx', -⟩ := findBefore_of_follow ho hreach hfirst hsteps q
    obtain rfl := Except.ok.inj (hx.symm.trans hx')
    have hread₃ : Edit.read (t.findBefore · o q (t.count.toNat + 1) first) m = .ok x m := by
      simp only [Edit.read, hfind]
    rw [bind_ok hread₁, bind_ok hread₂]
    dsimp only
    rw [if_neg fun h : first = o => hfirst 0 (Nat.zero_le k) (h ▸ rfl), bind_ok hread₃]

/-- **An object that the chain of its recorded parent never comes to cannot be removed**, and the
attempt changes nothing. -/
theorem remove_of_lost (hparent : t.parent m o = .ok q) (hq : q ≠ 0)
    (hlost : ∀ first k, t.child m q = .ok first → t.follow m .sibling k first ≠ .ok o) (p : Protection) :
    ∃ fault, t.remove p o m = .error fault m := by
  have ho : o ≠ 0 := by
    rintro rfl
    exact hq (Except.ok.inj hparent).symm
  have hread : Edit.read (t.parent · o) m = .ok q m := by simp only [Edit.read, hparent]
  unfold remove
  rw [if_neg ho, bind_ok hread, if_neg hq]
  cases hchild : t.child m q with
  | error fault => exact ⟨fault, bind_error (by simp only [Edit.read, hchild])⟩
  | ok first =>
    have hread₁ : Edit.read (t.child · q) m = .ok first m := by simp only [Edit.read, hchild]
    rw [bind_ok hread₁]
    cases hnext : t.sibling m o with
    | error fault => exact ⟨fault, bind_error (by simp only [Edit.read, hnext])⟩
    | ok next =>
      have hread₂ : Edit.read (t.sibling · o) m = .ok next m := by simp only [Edit.read, hnext]
      rw [bind_ok hread₂]
      dsimp only
      rw [if_neg fun h : first = o => hlost first 0 hchild (h ▸ rfl)]
      cases hfind : t.findBefore m o q (t.count.toNat + 1) first with
      | error fault => exact ⟨fault, bind_error (by simp only [Edit.read, hfind])⟩
      | ok x =>
        obtain ⟨k, hk⟩ := follow_of_findBefore hfind
        exact absurd hk (hlost first k hchild)

/-- The object hangs below its recorded parent by a link that can be written, and its own links can be
written too. -/
def Unhooks (t : ObjectTable) (p : Protection) (m : Memory) (o : UInt16) : Prop :=
  ∃ q l x, t.parent m o = .ok q ∧ q ≠ 0 ∧ t.Hangs m o q l x ∧ t.Writable p l x ∧
    t.Writable p .sibling o

/-- The removal takes the object off its hook and cannot go on. -/
inductive RemovalTears (t : ObjectTable) (p : Protection) (m : Memory) (o : UInt16) : Prop
  /-- The parent stays as it was. -/
  | parent {q x next : UInt16} {l : Link} : t.parent m o = .ok q → q ≠ 0 → t.Hangs m o q l x →
      t.sibling m o = .ok next → next ≠ o → t.Writable p l x → ¬ t.Writable p .parent o →
      RemovalTears t p m o
  /-- The sibling stays as it was. -/
  | sibling {q x : UInt16} {l : Link} : t.parent m o = .ok q → q ≠ 0 → t.Hangs m o q l x →
      t.Writable p l x → t.Writable p .parent o → ¬ t.Writable p .sibling o → RemovalTears t p m o

theorem RemovalTears.hangs (h : t.RemovalTears p m o) :
    ∃ q l x, t.parent m o = .ok q ∧ q ≠ 0 ∧ t.Hangs m o q l x ∧ t.Writable p l x := by
  cases h with
  | parent hparent hq hhangs _ _ hw _ => exact ⟨_, _, _, hparent, hq, hhangs, hw⟩
  | sibling hparent hq hhangs hw _ _ => exact ⟨_, _, _, hparent, hq, hhangs, hw⟩

theorem RemovalTears.not_writable (h : t.RemovalTears p m o) : ¬ t.Writable p .sibling o := by
  cases h with
  | parent _ _ _ _ _ _ hw => exact fun h => hw h.parent
  | sibling _ _ _ _ _ hw => exact hw

/-- All that the removal of an object can come to. -/
inductive Removal (t : ObjectTable) (p : Protection) (m : Memory) (o : UInt16) :
    EStateM.Result Fault Memory Unit → Prop
  | alone : t.IsObject o → t.parent m o = .ok 0 → Removal t p m o (.ok () m)
  | unhooked {m' : Memory} : t.Unhooks p m o → m'.size = m.size →
      m'.get (t.place .parent o) ≠ m.get (t.place .parent o) → Removal t p m o (.ok () m')
  | refused (fault : Fault) : t.parent m o ≠ .ok 0 → ¬ t.Unhooks p m o → ¬ t.RemovalTears p m o →
      Removal t p m o (.error fault m)
  | torn {m' : Memory} (fault : Fault) : t.RemovalTears p m o → m' ≠ m →
      Removal t p m o (.error fault m')

/-- A removal is refused if no link that can be written leads to the object. -/
theorem Removal.of_no_hook (fault : Fault) (hparent : t.parent m o ≠ .ok 0)
    (h : ∀ q l x, t.parent m o = .ok q → q ≠ 0 → t.Hangs m o q l x → ¬ t.Writable p l x) :
    t.Removal p m o (.error fault m) := by
  refine .refused fault hparent ?_ ?_
  · rintro ⟨q, l, x, hparent, hq, hhangs, hw, -⟩
    exact h q l x hparent hq hhangs hw
  · intro htears
    obtain ⟨q, l, x, hparent, hq, hhangs, hw⟩ := htears.hangs
    exact h q l x hparent hq hhangs hw

/-- What becomes of an object that hangs below its recorded parent. -/
theorem removal_of_hangs (hfit : t.Fits m.size) (ho : t.IsObject o) (hparent : t.parent m o = .ok q)
    (hq : q ≠ 0) (hhangs : t.Hangs m o q l x) (p : Protection) :
    t.Removal p m o (t.remove p o m) := by
  have hx := hhangs.isObject ho.ne_zero
  have hparent0 : t.parent m o ≠ .ok 0 := fun h => hq (Except.ok.inj (hparent.symm.trans h))
  have hnext : t.sibling m o = .ok (m.get (t.place .sibling o)).toUInt16 := hfit.link_eq ho .sibling
  generalize (m.get (t.place .sibling o)).toUInt16 = next at hnext
  rw [remove_of_hangs hparent hq hhangs hnext]
  by_cases hw : t.Writable p l x
  · rw [bind_ok (hfit.setLink_ok hx hw next)]
    have hfit₁ : t.Fits (m.put (t.place l x) next.toUInt8).size := by rwa [Memory.size_put]
    by_cases hwp : t.Writable p .parent o
    · rw [bind_ok (hfit₁.setLink_ok ho hwp 0)]
      have hfit₂ : t.Fits ((m.put (t.place l x) next.toUInt8).put (t.place .parent o)
        (UInt16.toUInt8 0)).size := by rwa [Memory.size_put]
      -- the parent has been written, and it was an object
      have hold : m.get (t.place .parent o) ≠ 0 := by
        intro h0
        have hlink : t.parent m o = .ok (m.get (t.place .parent o)).toUInt16 :=
          hfit.link_eq ho .parent
        rw [h0, hparent] at hlink
        exact hq (Except.ok.inj hlink)
      have hnew : ((m.put (t.place l x) next.toUInt8).put (t.place .parent o)
          (UInt16.toUInt8 0)).get (t.place .parent o) = 0 :=
        Memory.get_put_self (hfit₁.place_lt ho .parent) _
      by_cases hws : t.Writable p .sibling o
      · rw [hfit₂.setLink_ok ho hws 0]
        refine .unhooked ⟨q, l, x, hparent, hq, hhangs, hw, hws⟩ (by simp) ?_
        have hne : t.place .sibling o ≠ t.place .parent o := fun h =>
          absurd (place_inj ho ho h).1 (by decide)
        rw [Memory.get_put_of_ne hne, hnew]
        exact hold.symm
      · obtain ⟨fault, hfault⟩ := hfit₂.setLink_error ho hws 0
        rw [hfault]
        refine .torn fault (.sibling hparent hq hhangs hw hwp hws) fun heq => hold ?_
        rw [← heq, hnew]
    · obtain ⟨fault, hfault⟩ := hfit₁.setLink_error ho hwp 0
      rw [bind_error hfault]
      by_cases hself : next = o
      · -- the object is its own sibling, and the hook keeps it
        have hsame : m.put (t.place l x) next.toUInt8 = m := by
          have hlink := hhangs.link
          rw [hfit.link_eq hx l, ← hself] at hlink
          rw [Memory.put_eq_self_iff (hfit.place_lt hx l), ← Except.ok.inj hlink,
            UInt8.toUInt8_toUInt16]
        rw [hsame]
        refine .refused fault hparent0 ?_ ?_
        · rintro ⟨-, -, -, -, -, -, -, hws⟩
          exact hwp hws.parent
        · rintro (⟨-, -, -, hnext', hne, -, -⟩ | ⟨-, -, -, -, hwp', -⟩)
          · exact hne (Except.ok.inj (hnext'.symm.trans hnext) ▸ hself)
          · exact hwp hwp'
      · refine .torn fault (.parent hparent hq hhangs hnext hself hw hwp) fun heq => hself ?_
        have hbyte := (Memory.put_eq_self_iff (hfit.place_lt hx l)).1 heq
        have hlink := hhangs.link
        rw [hfit.link_eq hx l, hbyte, toUInt16_toUInt8 (link_le hnext)] at hlink
        exact Except.ok.inj hlink
  · obtain ⟨fault, hfault⟩ := hfit.setLink_error hx hw next
    rw [bind_error hfault]
    refine .of_no_hook fault hparent0 fun q' l' x' hparent' _ hhangs' => ?_
    obtain rfl := Except.ok.inj (hparent.symm.trans hparent')
    obtain ⟨rfl, rfl⟩ := hhangs.unique hhangs'
    exact hw

theorem removal (hfit : t.Fits m.size) (ho : o ≠ 0) (p : Protection) :
    t.Removal p m o (t.remove p o m) := by
  by_cases hobject : t.IsObject o
  · have hparent : t.parent m o = .ok (m.get (t.place .parent o)).toUInt16 :=
      hfit.link_eq hobject .parent
    generalize (m.get (t.place .parent o)).toUInt16 = q at hparent
    by_cases hq : q = 0
    · subst hq
      have hread : Edit.read (t.parent · o) m = .ok 0 m := by simp only [Edit.read, hparent]
      unfold remove
      rw [if_neg ho, bind_ok hread, if_pos rfl]
      exact .alone hobject hparent
    · by_cases hreach : ∃ first k, t.child m q = .ok first ∧ t.follow m .sibling k first = .ok o
      · obtain ⟨first, k, hchild, hk⟩ := hreach
        obtain ⟨l, x, hhangs⟩ := exists_hangs hchild hk
        exact removal_of_hangs hfit hobject hparent hq hhangs p
      · obtain ⟨fault, hfault⟩ := remove_of_lost hparent hq
          (fun first k hchild hk => hreach ⟨first, k, hchild, hk⟩) p
        rw [hfault]
        refine .of_no_hook fault (fun h => hq (Except.ok.inj (hparent.symm.trans h)))
          fun q' l x hparent' _ hhangs => ?_
        obtain rfl := Except.ok.inj (hparent.symm.trans hparent')
        exact absurd hhangs.reaches hreach
  · obtain ⟨fault, hfault⟩ := remove_error hobject ho p m
    rw [hfault]
    exact .of_no_hook fault (fun h => hobject (isObject_of_link h ho))
      fun q l x hparent _ _ => absurd (isObject_of_link hparent ho) hobject

/-! ## Changes -/

/-- A change of the object table. -/
inductive Change where
  | remove (o : UInt16)
  | insert (o q : UInt16)
  | setAttribute (o n : UInt16) (on : Bool)
  | setProperty (o n v : UInt16)

/-- The change in memory. -/
def Change.run (t : ObjectTable) (p : Protection) : Change → Edit Unit
  | .remove o => t.remove p o
  | .insert o q => t.insert p o q
  | .setAttribute o n on => t.setAttribute p o n on
  | .setProperty o n v => t.setProperty p o n v

/-- The change fails with some of its links written. -/
inductive Tears (t : ObjectTable) (p : Protection) (m : Memory) : Change → Prop
  /-- The object is off its hook, and its own links lie in static memory. -/
  | removal {o : UInt16} : t.RemovalTears p m o → Tears t p m (.remove o)
  | insertion {o q : UInt16} : t.RemovalTears p m o → o ≠ q → Tears t p m (.insert o q)
  /-- The object has been removed, and the new parent is no object or its child lies in static
  memory. -/
  | homeless {o q : UInt16} : t.Unhooks p m o → q ≠ 0 → o ≠ q →
      ¬ (t.IsObject q ∧ t.Writable p .child q) → Tears t p m (.insert o q)
  /-- The object had no parent and has got its new sibling only. -/
  | aside {o q : UInt16} : t.IsObject o → t.parent m o = .ok 0 → t.IsObject q → o ≠ q →
      t.Writable p .sibling o → ¬ t.Writable p .child q → t.child m q ≠ t.sibling m o →
      Tears t p m (.insert o q)

theorem insert_eq (ho : o ≠ 0) (hq : q ≠ 0) (hne : o ≠ q) (p : Protection) :
    t.insert p o q = (do
      t.remove p o
      let first ← Edit.read (t.child · q)
      t.setLink p .sibling o first
      t.setLink p .child q o
      t.setLink p .parent o q) := by
  unfold insert
  rw [if_neg ho, if_neg hq]
  dsimp only
  rw [if_neg hne]

/-- All that can come of hanging a removed object below `q`. -/
inductive Hanging (t : ObjectTable) (p : Protection) (m : Memory) (o q : UInt16) :
    EStateM.Result Fault Memory Unit → Prop
  | hung {m' : Memory} : t.IsObject q → t.Writable p .sibling o → t.Writable p .child q →
      Hanging t p m o q (.ok () m')
  | refused (fault : Fault) : ¬ (t.IsObject q ∧ t.Writable p .sibling o) →
      Hanging t p m o q (.error fault m)
  | halfway {first : UInt16} (fault : Fault) : t.IsObject q → t.Writable p .sibling o →
      ¬ t.Writable p .child q → t.child m q = .ok first →
      Hanging t p m o q (.error fault (m.put (t.place .sibling o) first.toUInt8))

theorem hanging (hfit : t.Fits m.size) (ho : t.IsObject o) (hq : q ≠ 0) (p : Protection) :
    t.Hanging p m o q ((do
      let first ← Edit.read (t.child · q)
      t.setLink p .sibling o first
      t.setLink p .child q o
      t.setLink p .parent o q : Edit Unit) m) := by
  by_cases hobject : t.IsObject q
  · obtain ⟨first, hfirst⟩ : ∃ first, t.child m q = .ok first := ⟨_, hfit.link_eq hobject .child⟩
    have hread : Edit.read (t.child · q) m = .ok first m := by simp only [Edit.read, hfirst]
    rw [bind_ok hread]
    by_cases hws : t.Writable p .sibling o
    · rw [bind_ok (hfit.setLink_ok ho hws first)]
      have hfit₁ : t.Fits (m.put (t.place .sibling o) first.toUInt8).size := by
        rwa [Memory.size_put]
      by_cases hwc : t.Writable p .child q
      · rw [bind_ok (hfit₁.setLink_ok hobject hwc o),
          Fits.setLink_ok (by rwa [Memory.size_put]) ho hws.parent q]
        exact .hung hobject hws hwc
      · obtain ⟨fault, hfault⟩ := hfit₁.setLink_error hobject hwc o
        rw [bind_error hfault]
        exact .halfway fault hobject hws hwc hfirst
    · obtain ⟨fault, hfault⟩ := hfit.setLink_error ho hws first
      rw [bind_error hfault]
      exact .refused fault fun h => hws h.2
  · obtain ⟨fault, hchild⟩ : ∃ fault, t.child m q = .error fault := link_error hobject hq m .child
    have hread : Edit.read (t.child · q) m = .error fault m := by simp only [Edit.read, hchild]
    rw [bind_error hread]
    exact .refused fault fun h => hobject h.1

/-- The change fails and leaves another memory. -/
def Change.Spoils (t : ObjectTable) (p : Protection) (m : Memory) (c : Change) : Prop :=
  ∃ fault m', c.run t p m = .error fault m' ∧ m' ≠ m

theorem Unhooks.parent_ne_null (h : t.Unhooks p m o) : t.parent m o ≠ .ok 0 := by
  obtain ⟨q, -, -, hparent, hq, -⟩ := h
  rw [hparent]
  exact fun h => hq (Except.ok.inj h)

theorem RemovalTears.parent_ne_null (h : t.RemovalTears p m o) : t.parent m o ≠ .ok 0 := by
  obtain ⟨q, -, -, hparent, hq, -⟩ := h.hangs
  rw [hparent]
  exact fun h => hq (Except.ok.inj h)

theorem RemovalTears.not_unhooks (h : t.RemovalTears p m o) : ¬ t.Unhooks p m o := by
  rintro ⟨-, -, -, -, -, -, -, hw⟩
  exact h.not_writable hw

theorem spoils_remove_iff (hfit : t.Fits m.size) (o : UInt16) :
    (Change.remove o).Spoils t p m ↔ t.RemovalTears p m o := by
  by_cases ho : o = 0
  · subst ho
    refine iff_of_false ?_ fun h => h.parent_ne_null rfl
    rintro ⟨fault, m', h, -⟩
    cases h
  have hremoval := removal hfit ho p
  rw [Change.Spoils, Change.run]
  generalize t.remove p o m = r at hremoval
  cases hremoval with
  | alone _ hparent =>
    refine iff_of_false ?_ fun h => h.parent_ne_null hparent
    rintro ⟨fault, m', h, -⟩
    cases h
  | unhooked hunhooks _ _ =>
    refine iff_of_false ?_ fun h => h.not_unhooks hunhooks
    rintro ⟨fault, m', h, -⟩
    cases h
  | refused fault _ _ hnot =>
    refine iff_of_false ?_ hnot
    rintro ⟨_, _, ⟨⟩, hne⟩
    exact hne rfl
  | torn fault htears hne => exact iff_of_true ⟨fault, _, rfl, hne⟩ htears

/-- Inserting an object that has no parent. -/
theorem spoils_hanging_iff (hfit : t.Fits m.size) (ho : t.IsObject o)
    {r : EStateM.Result Fault Memory Unit} (h : t.Hanging p m o q r) :
    (∃ fault m', r = .error fault m' ∧ m' ≠ m) ↔ t.IsObject q ∧ t.Writable p .sibling o ∧
      ¬ t.Writable p .child q ∧ t.child m q ≠ t.sibling m o := by
  cases h with
  | hung _ _ hwc =>
    refine iff_of_false ?_ fun h => h.2.2.1 hwc
    rintro ⟨_, _, ⟨⟩, -⟩
  | refused _ hnot =>
    refine iff_of_false ?_ fun h => hnot ⟨h.1, h.2.1⟩
    rintro ⟨_, _, ⟨⟩, hne⟩
    exact hne rfl
  | @halfway first fault hq hws hwc hfirst =>
    have hsame : m.put (t.place .sibling o) first.toUInt8 = m ↔ t.child m q = t.sibling m o := by
      have hlink : t.sibling m o = .ok (m.get (t.place .sibling o)).toUInt16 :=
        hfit.link_eq ho .sibling
      rw [Memory.put_eq_self_iff (hfit.place_lt ho .sibling), hfirst, hlink, Except.ok.injEq]
      constructor
      · intro h
        rw [h, toUInt16_toUInt8 (link_le hfirst)]
      · intro h
        rw [h, UInt8.toUInt8_toUInt16]
    constructor
    · rintro ⟨_, _, ⟨⟩, hne⟩
      exact ⟨hq, hws, hwc, fun h => hne (hsame.2 h)⟩
    · rintro ⟨-, -, -, hne⟩
      exact ⟨fault, _, rfl, fun h => hne (hsame.1 h)⟩

/-- Inserting an object that has been removed. -/
theorem spoils_hanging_unhooked_iff {m₁ : Memory} (ho : t.IsObject o) (hws : t.Writable p .sibling o)
    (hnew : m₁.get (t.place .parent o) ≠ m.get (t.place .parent o))
    {r : EStateM.Result Fault Memory Unit} (h : t.Hanging p m₁ o q r) :
    (∃ fault m', r = .error fault m' ∧ m' ≠ m) ↔ ¬ (t.IsObject q ∧ t.Writable p .child q) := by
  cases h with
  | hung hq _ hwc =>
    refine iff_of_false ?_ fun h => h ⟨hq, hwc⟩
    rintro ⟨_, _, ⟨⟩, -⟩
  | refused fault hnot =>
    refine iff_of_true ⟨fault, _, rfl, fun h => hnew (by rw [h])⟩ fun h => hnot ⟨h.1, hws⟩
  | halfway fault _ _ hwc _ =>
    refine iff_of_true ⟨fault, _, rfl, fun h => hnew ?_⟩ fun h => hwc h.2
    have hne : t.place .sibling o ≠ t.place .parent o := fun h =>
      absurd (place_inj ho ho h).1 (by decide)
    rw [← h, Memory.get_put_of_ne hne]

theorem spoils_insert_iff (hfit : t.Fits m.size) (o q : UInt16) :
    (Change.insert o q).Spoils t p m ↔ t.Tears p m (.insert o q) := by
  by_cases ho : o = 0
  · subst ho
    refine iff_of_false ?_ ?_
    · rintro ⟨fault, m', h, -⟩
      cases h
    · rintro (_ | ⟨htears, -⟩ | ⟨hunhooks, -⟩ | ⟨h0, -⟩)
      · exact htears.parent_ne_null rfl
      · exact hunhooks.parent_ne_null rfl
      · exact h0.ne_zero rfl
  by_cases hq : q = 0
  · subst hq
    have hrun : (Change.insert o 0).run t p = (Change.remove o).run t p := by
      show t.insert p o 0 = t.remove p o
      unfold insert
      rw [if_neg ho, if_pos rfl]
    rw [Change.Spoils, hrun]
    refine (spoils_remove_iff hfit o).trans ⟨fun h => .insertion h ho, ?_⟩
    rintro (_ | ⟨htears, -⟩ | ⟨-, h0, -⟩ | ⟨-, -, h0, -⟩)
    · exact htears
    · exact absurd rfl h0
    · exact absurd rfl h0.ne_zero
  by_cases hne : o = q
  · subst hne
    refine iff_of_false ?_ ?_
    · rintro ⟨fault, m', h, hm⟩
      have hrun : t.insert p o o m = .error fault m' := h
      unfold insert at hrun
      rw [if_neg ho, if_neg ho] at hrun
      dsimp only at hrun
      rw [if_pos rfl] at hrun
      cases hrun
      exact hm rfl
    · rintro (_ | ⟨-, h⟩ | ⟨-, -, h, -⟩ | ⟨-, -, -, h, -⟩) <;> exact h rfl
  have hremoval := removal hfit ho p
  rw [Change.Spoils, Change.run, insert_eq ho hq hne]
  generalize hr : t.remove p o m = r at hremoval
  cases hremoval with
  | alone hobject hparent =>
    rw [bind_ok hr, spoils_hanging_iff hfit hobject (hanging hfit hobject hq p)]
    constructor
    · rintro ⟨hobjectq, hws, hwc, hdiffer⟩
      exact .aside hobject hparent hobjectq hne hws hwc hdiffer
    · rintro (_ | ⟨htears, -⟩ | ⟨hunhooks, -⟩ | ⟨-, -, hobjectq, -, hws, hwc, hdiffer⟩)
      · exact absurd hparent htears.parent_ne_null
      · exact absurd hparent hunhooks.parent_ne_null
      · exact ⟨hobjectq, hws, hwc, hdiffer⟩
  | @unhooked m₁ hunhooks hsize hnew =>
    obtain ⟨q₀, l, x, hparent, hq₀, hhangs, hw, hws⟩ := id hunhooks
    have hobject : t.IsObject o := isObject_of_link hparent ho
    rw [bind_ok hr, spoils_hanging_unhooked_iff hobject hws hnew
      (hanging (hsize.symm ▸ hfit) hobject hq p)]
    constructor
    · exact fun h => .homeless hunhooks hq hne h
    · rintro (_ | ⟨htears, -⟩ | ⟨-, -, -, h⟩ | ⟨-, h0, -⟩)
      · exact absurd hunhooks htears.not_unhooks
      · exact h
      · exact absurd h0 hunhooks.parent_ne_null
  | refused fault hparent hnot hnot' =>
    rw [bind_error hr]
    refine iff_of_false ?_ ?_
    · rintro ⟨_, _, ⟨⟩, hm⟩
      exact hm rfl
    · rintro (_ | ⟨htears, -⟩ | ⟨hunhooks, -⟩ | ⟨-, h0, -⟩)
      · exact hnot' htears
      · exact hnot hunhooks
      · exact hparent h0
  | torn fault htears hm =>
    rw [bind_error hr]
    exact iff_of_true ⟨fault, _, rfl, hm⟩ (.insertion htears hne)

/-! ## Changes that are a single write -/

/-- Where the edit fails, it has changed nothing. -/
def Atomic {α : Type} (act : Edit α) : Prop := ∀ m fault m', act m = .error fault m' → m' = m

theorem atomic_throw {α : Type} (fault : Fault) : Atomic (throw fault : Edit α) := by
  rintro m _ _ ⟨⟩
  rfl

theorem Atomic.read_bind {α β : Type} {f : Memory → Except Fault α} {act : α → Edit β}
    (h : ∀ a, Atomic (act a)) : Atomic (Edit.read f >>= act) := by
  intro m fault m' herror
  cases hf : f m with
  | error e =>
    rw [bind_error (show Edit.read f m = .error e m by simp only [Edit.read, hf])] at herror
    cases herror
    rfl
  | ok a =>
    rw [bind_ok (show Edit.read f m = .ok a m by simp only [Edit.read, hf])] at herror
    exact h a m fault m' herror

theorem atomic_setByte (a : Address) (v : UInt8) : Atomic (Memory.setByte a v) :=
  .read_bind fun _ => by rintro m _ _ ⟨⟩

theorem atomic_setWord (a : Address) (w : UInt16) : Atomic (Memory.setWord a w) :=
  .read_bind fun _ => by rintro m _ _ ⟨⟩

theorem atomic_writeByte (p : Protection) (a : Address) (v : UInt8) : Atomic (p.writeByte a v) :=
  .read_bind fun _ => atomic_setByte a v

/-- Both bytes of a word are looked at before one is written. -/
theorem atomic_writeWord (p : Protection) (a : Address) (w : UInt16) : Atomic (p.writeWord a w) :=
  .read_bind fun _ => .read_bind fun _ => atomic_setWord a w

theorem atomic_setAttribute (t : ObjectTable) (p : Protection) (o n : UInt16) (on : Bool) :
    Atomic (t.setAttribute p o n on) := by
  unfold setAttribute
  dsimp only
  split
  · rintro m _ _ ⟨⟩
    rfl
  split
  · rintro m _ _ ⟨⟩
  exact .read_bind fun _ => .read_bind fun _ => atomic_writeByte p _ _

theorem atomic_setProperty (t : ObjectTable) (p : Protection) (o n v : UInt16) :
    Atomic (t.setProperty p o n v) := by
  refine .read_bind fun data => ?_
  split
  · exact atomic_throw _
  split
  · exact atomic_writeByte p _ _
  split
  · exact atomic_writeWord p _ _
  · exact atomic_throw _

/-! ## Failed changes -/

theorem Dynamic.writable (hp : t.Dynamic p) (ho : t.IsObject o) (l : Link) : t.Writable p l o := by
  have hend := hp o ho
  have hl := offset_lt l
  unfold Writable place
  omega

/-- In dynamic memory only the insertion of a child into what is no object is torn. -/
theorem Dynamic.tears_iff (hp : t.Dynamic p) {c : Change} :
    t.Tears p m c ↔ ∃ o q, c = .insert o q ∧ q ≠ 0 ∧ ¬ t.IsObject q ∧
      ∃ r first k, t.parent m o = .ok r ∧ r ≠ 0 ∧ t.child m r = .ok first ∧
        t.follow m .sibling k first = .ok o := by
  have hobject {o r : UInt16} (h : t.parent m o = .ok r) (hr : r ≠ 0) : t.IsObject o := by
    refine isObject_of_link h ?_
    rintro rfl
    exact hr (Except.ok.inj h).symm
  -- the links of an object can be written
  have hnot {o : UInt16} (h : t.RemovalTears p m o) : False := by
    obtain ⟨r, -, -, hparent, hr, -⟩ := h.hangs
    exact h.not_writable (hp.writable (hobject hparent hr) .sibling)
  constructor
  · rintro (h | ⟨h, -⟩ | ⟨⟨r, l, x, hparent, hr, hhangs, -⟩, hq, hne, hnone⟩ |
      ⟨-, -, hq, -, -, hwc, -⟩)
    · exact (hnot h).elim
    · exact (hnot h).elim
    · obtain ⟨first, k, hchild, hk⟩ := hhangs.reaches
      exact ⟨_, _, rfl, hq, fun h => hnone ⟨h, hp.writable h .child⟩, r, first, k, hparent, hr,
        hchild, hk⟩
    · exact absurd (hp.writable hq .child) hwc
  · rintro ⟨o, q, rfl, hq, hnone, r, first, k, hparent, hr, hchild, hk⟩
    have ho := hobject hparent hr
    obtain ⟨l, x, hhangs⟩ := exists_hangs hchild hk
    refine .homeless ⟨r, l, x, hparent, hr, hhangs, ?_, hp.writable ho .sibling⟩ hq ?_ fun h => hnone h.1
    · exact hp.writable (hhangs.isObject ho.ne_zero) l
    · rintro rfl
      exact hnone ho

theorem spoils_iff (hfit : t.Fits m.size) (c : Change) : c.Spoils t p m ↔ t.Tears p m c := by
  cases c with
  | remove o =>
    refine (spoils_remove_iff hfit o).trans ⟨.removal, ?_⟩
    rintro ⟨h⟩
    exact h
  | insert o q => exact spoils_insert_iff hfit o q
  | setAttribute o n on =>
    refine iff_of_false ?_ (by rintro ⟨⟩)
    rintro ⟨fault, m', h, hne⟩
    exact hne (atomic_setAttribute t p o n on m fault m' h)
  | setProperty o n v =>
    refine iff_of_false ?_ (by rintro ⟨⟩)
    rintro ⟨fault, m', h, hne⟩
    exact hne (atomic_setProperty t p o n v m fault m' h)

/-- **Which failed changes leave their mark.**  Whatever memory holds, a change of the object table that
fails leaves another memory if and only if it is torn: the attributes and properties never are, and in
a table that lies in dynamic memory nothing is but the insertion of a child into what is no object.
Removing an object that the chain of its recorded parent never comes to fails, also where that chain
is a circle, and changes nothing. -/
theorem failed_change_torn_iff (hfit : t.Fits m.size) (p : Protection) :
    (∀ c : Change, (∃ fault m', c.run t p m = .error fault m' ∧ m' ≠ m) ↔ t.Tears p m c) ∧
    (∀ o n on, ¬ t.Tears p m (.setAttribute o n on)) ∧ (∀ o n v, ¬ t.Tears p m (.setProperty o n v)) ∧
    (t.Dynamic p → ∀ c : Change, t.Tears p m c ↔ ∃ o q, c = .insert o q ∧ q ≠ 0 ∧ ¬ t.IsObject q ∧
      ∃ r first k, t.parent m o = .ok r ∧ r ≠ 0 ∧ t.child m r = .ok first ∧
        t.follow m .sibling k first = .ok o) ∧
    (∀ o q, t.parent m o = .ok q → q ≠ 0 →
      (∀ first k, t.child m q = .ok first → t.follow m .sibling k first ≠ .ok o) →
      ∃ fault, t.remove p o m = .error fault m) := by
  refine ⟨fun c => spoils_iff hfit c, ?_, ?_, fun hp c => hp.tears_iff, ?_⟩
  · rintro o n on ⟨⟩
  · rintro o n v ⟨⟩
  · exact fun o q hparent hq hlost => remove_of_lost hparent hq hlost p

/-- The nesting image with the first child as its own sibling. -/
def circleImage : Memory := nestingImage.put (nestingStory.objects.place .sibling 2) 2

/-- The second child is not on the circle that its parent leads to, and cannot be removed. -/
theorem failed_change_torn_iff_circle :
    let t := nestingStory.objects
    let p := nestingStory.protection
    (∃ fault, t.remove p 3 circleImage = .error fault circleImage) ∧
      ∀ fault m', t.insert p 3 2 circleImage = .error fault m' → m' = circleImage := by
  intro t p
  have hfit : t.Fits circleImage.size := fits_of_load load_nesting (Memory.size_put _ _ _)
  obtain ⟨htorn, -, -, hdynamic, hlost⟩ := failed_change_torn_iff hfit p
  have hcircle (k : Nat) : t.follow circleImage .sibling k 2 = .ok 2 := by
    induction k with
    | zero => rfl
    | succ k ih => exact (follow_succ (by decide +kernel)).trans ih
  have hchild : t.child circleImage 1 = .ok 2 := by decide +kernel
  refine ⟨hlost 3 1 (by decide +kernel) (by decide) ?_, fun fault m' h => ?_⟩
  · intro first k hfirst hk
    obtain rfl := Except.ok.inj (hchild.symm.trans hfirst)
    exact absurd (Except.ok.inj ((hcircle k).symm.trans hk)) (by decide)
  · by_contra hne
    obtain ⟨o, q, hsame, -, hnone, -⟩ :=
      (hdynamic dynamic_nesting _).1 ((htorn (.insert 3 2)).1 ⟨fault, m', h, hne⟩)
    cases hsame
    exact hnone (isObject_nesting.2 (.inr (.inl rfl)))

/-- **An object is taken out of its parent by an insertion that fails**: the new parent is no object,
and that is found out too late. -/
theorem insert_into_no_object_removes :
    let t := nestingStory.objects
    ∃ fault m', t.insert nestingStory.protection 2 200 nestingImage = .error fault m' ∧
      m' ≠ nestingImage ∧ t.parent nestingImage 2 = .ok 1 ∧ t.parent m' 2 = .ok 0 := by
  intro t
  have hfit : t.Fits nestingImage.size := fits_of_load load_nesting rfl
  have hparent : t.parent nestingImage 2 = .ok 1 := by decide +kernel
  have hchild : t.child nestingImage 1 = .ok 2 := by decide +kernel
  obtain ⟨fault, m', h, hne⟩ := (spoils_iff hfit (.insert 2 200)).2 (dynamic_nesting.tears_iff.2
    ⟨2, 200, rfl, by decide, fun h => absurd (isObject_nesting.1 h) (by decide), 1, 2, 0, hparent,
      by decide, hchild, rfl⟩)
  have hreached : reached (t.insert nestingStory.protection 2 200 nestingImage) = m' := by
    rw [show t.insert nestingStory.protection 2 200 nestingImage = _ from h]
    rfl
  refine ⟨fault, m', h, hne, hparent, ?_⟩
  rw [← hreached]
  decide +kernel

end ZCode.ObjectTable
