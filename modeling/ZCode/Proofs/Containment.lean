/-
  Objects that contain each other.

  * `Contains` says that an object is met on the way up from another one, where parents are followed,
    and `Acyclic` that no object contains itself.  In a forest the way up then ends
    within as many steps as there are objects (`Forest.acyclic_iff`).
  * `Move.reparents` says which object a move gives which parent, also a move that fails.  What the
    memory holds afterwards is a forest again, with that one parent changed (`Forest.reached_move`).
  * A new parent closes a circle if and only if the object contains it (`acyclic_reparented_iff`), and
    nothing keeps an insertion from doing so.  `climb_moves_iff` says it of sequences of moves.
-/
import Mathlib.Data.List.Induction
import ZCode.Proofs.Forest

namespace ZCode.ObjectTable

variable {t : ObjectTable} {p : Protection} {m m' : Memory} {o q x y : UInt16} {k : Nat}
  {lists : UInt16 → List UInt16}

/-! ## The way up -/

/-- The object holds the other one, directly or within others. -/
def Contains (t : ObjectTable) (m : Memory) (o x : UInt16) : Prop :=
  t.IsObject o ∧ ∃ k, t.follow m .parent (k + 1) x = .ok o

/-- No object contains itself. -/
def Acyclic (t : ObjectTable) (m : Memory) : Prop := ∀ o, ¬ t.Contains m o o

theorem Forest.follow_parent_ok (hf : t.Forest m lists) (hx : x ≤ t.count) (k : Nat) :
    ∃ y, t.follow m .parent k x = .ok y ∧ y ≤ t.count := by
  induction k generalizing x with
  | zero => exact ⟨x, rfl, hx⟩
  | succ k ih =>
    by_cases h0 : x = 0
    · exact ⟨0, by rw [h0, follow_null], UInt16.zero_le⟩
    · obtain ⟨q, hq, hle⟩ := hf.parent x (isObject_iff.2 ⟨h0, hx⟩)
      obtain ⟨y, hy, hyle⟩ := ih hle
      exact ⟨y, by rw [follow_succ hq, hy], hyle⟩

/-- Objects that are met one after the other and none of them twice are no more than there are. -/
theorem le_count_of_distinct {f : Nat → UInt16} {n : Nat} (hobject : ∀ i < n, t.IsObject (f i))
    (hinj : ∀ i j, i < j → j < n → f i ≠ f j) : n ≤ t.count.toNat := by
  have hnodup : ((List.range n).map f).Nodup := by
    refine (List.nodup_map_iff_inj_on List.nodup_range).2 fun i hi j hj heq => ?_
    rw [List.mem_range] at hi hj
    rcases Nat.lt_trichotomy i j with hlt | rfl | hlt
    · exact absurd heq (hinj i j hlt hj)
    · rfl
    · exact absurd heq.symm (hinj j i hlt hi)
  have hlength := length_le_count hnodup (t := t) (by
    intro y hy
    obtain ⟨i, hi, rfl⟩ := List.mem_map.1 hy
    exact hobject i (List.mem_range.1 hi))
  simpa using hlength

/-- **In a forest without circles every way up ends, within as many steps as there are objects**, and
only there. -/
theorem Forest.acyclic_iff (hf : t.Forest m lists) :
    t.Acyclic m ↔ ∀ o, t.IsObject o → ∃ k ≤ t.count.toNat, t.follow m .parent k o = .ok 0 := by
  constructor
  · intro hacyclic o ho
    by_contra hnone
    -- otherwise the first steps of the way up meet more objects than there are
    choose f hf' hle using hf.follow_parent_ok (isObject_iff.1 ho).2
    have hobject : ∀ k ≤ t.count.toNat, t.IsObject (f k) := by
      intro k hk
      refine isObject_iff.2 ⟨fun h0 => hnone ⟨k, hk, ?_⟩, hle k⟩
      rw [hf' k, h0]
    have hinj : ∀ i j, i < j → i ≤ t.count.toNat → f i ≠ f j := by
      intro i j hij hi heq
      refine hacyclic (f i) ⟨hobject i hi, j - i - 1, ?_⟩
      have hback : t.follow m .parent (i + (j - i - 1 + 1)) o = .ok (f j) := by
        rw [show i + (j - i - 1 + 1) = j by omega, hf' j]
      rwa [follow_add (hf' i), ← heq] at hback
    have hcount : t.count.toNat + 1 ≤ t.count.toNat :=
      le_count_of_distinct (fun i hi => hobject i (by omega)) fun i j hij hj => hinj i j hij (by omega)
    omega
  · rintro hends o ⟨ho, k, hback⟩
    obtain ⟨j, -, hj⟩ := hends o ho
    have hzero : t.follow m .parent ((k + 1) * j) o = .ok 0 :=
      follow_null_of_le hj (Nat.le_mul_of_pos_left j k.succ_pos)
    exact ho.ne_zero (Except.ok.inj ((follow_mul hback j).symm.trans hzero))

/-! ## A new parent -/

/-- The memories have the same parents, except that `o` has got the parent `q`. -/
def Reparented (t : ObjectTable) (o q : UInt16) (m m' : Memory) : Prop :=
  ∀ x, t.parent m' x = if x = o then .ok q else t.parent m x

theorem Reparented.parent_ne (h : t.Reparented o q m m') (hx : x ≠ o) :
    t.parent m' x = t.parent m x := by
  rw [h, if_neg hx]

theorem Reparented.parent_self (h : t.Reparented o q m m') : t.parent m' o = .ok q := by
  rw [h, if_pos rfl]

/-- The way up to `o` does not depend on its parent. -/
theorem Reparented.follow_to (h : t.Reparented o q m m') (hk : t.follow m .parent k x = .ok o) :
    ∃ j, t.follow m' .parent j x = .ok o := by
  induction k generalizing x with
  | zero => exact ⟨0, hk⟩
  | succ k ih =>
    by_cases hx : x = o
    · exact ⟨0, by rw [hx]; rfl⟩
    · obtain ⟨y, hy, hrest⟩ := follow_succ_eq_ok_iff.1 hk
      obtain ⟨j, hj⟩ := ih hrest
      exact ⟨j + 1, by rw [follow_succ ((h.parent_ne hx).trans hy), hj]⟩

/-- A way up goes where it went before, or it comes by `o` and goes on from `q`. -/
theorem Reparented.follow_cases (h : t.Reparented o q m m') (hk : t.follow m' .parent k x = .ok y) :
    t.follow m .parent k x = .ok y ∨
      ∃ i j, t.follow m .parent i x = .ok o ∧ t.follow m .parent j q = .ok y := by
  induction k generalizing x with
  | zero => exact .inl hk
  | succ k ih =>
    obtain ⟨z, hz, hrest⟩ := follow_succ_eq_ok_iff.1 hk
    by_cases hx : x = o
    · subst hx
      obtain rfl := Except.ok.inj (h.parent_self.symm.trans hz)
      rcases ih hrest with hold | ⟨-, j, -, hj⟩
      · exact .inr ⟨0, k, rfl, hold⟩
      · exact .inr ⟨0, j, rfl, hj⟩
    · have hz' : t.parent m x = .ok z := (h.parent_ne hx).symm.trans hz
      rcases ih hrest with hold | ⟨i, j, hi, hj⟩
      · exact .inl (by rw [follow_succ hz', hold])
      · exact .inr ⟨i + 1, j, by rw [follow_succ hz', hi], hj⟩

/-- **A new parent closes a circle if and only if it is the object itself, or contained in it.** -/
theorem acyclic_reparented_iff (hacyclic : t.Acyclic m) (ho : t.IsObject o)
    (h : t.Reparented o q m m') : t.Acyclic m' ↔ q ≠ o ∧ ¬ t.Contains m o q := by
  constructor
  · intro hacyclic'
    constructor
    · rintro rfl
      exact hacyclic' q ⟨ho, 0, by rw [follow_succ h.parent_self]; rfl⟩
    · rintro ⟨-, k, hk⟩
      obtain ⟨j, hj⟩ := h.follow_to hk
      exact hacyclic' o ⟨ho, j, by rw [follow_succ h.parent_self, hj]⟩
  · rintro ⟨hne, hnot⟩ x ⟨hx, k, hk⟩
    rcases h.follow_cases hk with hold | ⟨i, j, hi, hj⟩
    · exact hacyclic x ⟨hx, k, hold⟩
    · have hup : t.follow m .parent (j + i) q = .ok o := by rw [follow_add hj, hi]
      cases hji : j + i with
      | zero =>
        rw [hji] at hup
        exact hne (Except.ok.inj hup)
      | succ n => exact hnot ⟨ho, n, by rw [← hji, hup]⟩

/-- Taking the parent away closes no circle. -/
theorem acyclic_of_no_parent (hacyclic : t.Acyclic m) (ho : t.IsObject o)
    (h : t.Reparented o 0 m m') : t.Acyclic m' := by
  refine (acyclic_reparented_iff hacyclic ho h).2 ⟨ho.ne_zero.symm, ?_⟩
  rintro ⟨-, k, hk⟩
  rw [follow_null] at hk
  exact ho.ne_zero (Except.ok.inj hk).symm

theorem Acyclic.congr (h : t.Acyclic m) (hparent : ∀ x, t.parent m' x = t.parent m x) :
    t.Acyclic m' := by
  have hlink : ∀ x, t.link m' .parent x = t.link m .parent x := hparent
  have hfollow : ∀ k x, t.follow m' .parent k x = t.follow m .parent k x := by
    intro k
    induction k with
    | zero => exact fun _ => rfl
    | succ k ih =>
      intro x
      simp only [follow, hlink, ih]
  rintro o ⟨ho, k, hk⟩
  exact h o ⟨ho, k, by rw [← hfollow, hk]⟩

/-! ## Moves, failing ones included -/

/-- All entries of the table lie in dynamic memory. -/
def Dynamic (t : ObjectTable) (p : Protection) : Prop :=
  ∀ o, t.IsObject o → t.start o + entrySize ≤ p.staticBase.toNat

theorem Dynamic.not_staticLink (h : t.Dynamic p) (fault : Fault) : ¬ t.StaticLink p fault := by
  rintro ⟨l, o, -, ho, -, hstatic, -⟩
  have hdynamic := h o ho
  have hoffset := offset_lt l
  unfold place at hstatic
  omega

/-- Where nothing else can go wrong, an action on a dynamic table succeeds. -/
theorem Dynamic.ok_of_ends {post : Unit → Memory → Prop} {act : Edit Unit} (h : t.Dynamic p)
    (hends : Ends post (t.StaticLink p) (act m)) : ∃ m', act m = .ok () m' ∧ post () m' := by
  cases hact : act m with
  | ok _ m' =>
    rw [hact] at hends
    exact ⟨m', rfl, hends⟩
  | error fault m' =>
    rw [hact] at hends
    exact absurd hends (h.not_staticLink fault)

theorem Dynamic.insert_ok (h : t.Dynamic p) (hfit : t.Fits m.size) (hf : t.Forest m lists)
    (ho : t.IsObject o) (hq : t.IsObject q) (hne : o ≠ q) :
    ∃ m', t.insert p o q m = .ok () m' ∧ t.Inserted m lists o q m' :=
  h.ok_of_ends (ends_insert hfit hf ho hq hne p)

instance (t : ObjectTable) (o : UInt16) : Decidable (t.IsObject o) :=
  inferInstanceAs (Decidable (_ ∧ _))

/-- The object that a move gives another parent, and that parent.  An insertion into what is no object
fails, but takes the object out first. -/
def Move.reparents (t : ObjectTable) : Move → Option (UInt16 × UInt16)
  | .remove o => if t.IsObject o then some (o, 0) else none
  | .insert o q =>
    if ¬ t.IsObject o ∨ o = q then none else some (o, if t.IsObject q then q else 0)

/-- What a move makes of the memory. -/
structure Moved (t : ObjectTable) (move : Move) (m m' : Memory) : Prop where
  size : m'.size = m.size
  forest : ∃ lists, t.Forest m' lists
  parents : match move.reparents t with
    | none => ∀ x, t.parent m' x = t.parent m x
    | some (o, q) => t.Reparented o q m m'

theorem Forest.reached_remove (hfit : t.Fits m.size) (hf : t.Forest m lists) (hp : t.Dynamic p)
    (o : UInt16) : t.Moved (.remove o) m (reached (t.remove p o m)) := by
  by_cases ho : t.IsObject o
  · obtain ⟨m', hm', hremoved⟩ := hp.ok_of_ends (ends_remove hfit hf ho p)
    rw [hm']
    refine ⟨hremoved.size, ⟨_, (hf.removed hfit ho hremoved).1⟩, ?_⟩
    rw [Move.reparents, if_pos ho]
    exact hremoved.parent hfit hf ho
  · have hsame : reached (t.remove p o m) = m := by
      by_cases h0 : o = 0
      · rw [h0]
        rfl
      · obtain ⟨fault, hfault⟩ := remove_error ho h0 p m
        rw [hfault]
        rfl
    rw [hsame]
    refine ⟨rfl, ⟨_, hf⟩, ?_⟩
    rw [Move.reparents, if_neg ho]
    exact fun _ => rfl

/-- An insertion into what is no object does what a removal does. -/
theorem reached_insert_of_not (hq : ¬ t.IsObject q) (hne : o ≠ q) (p : Protection) (m : Memory) :
    reached (t.insert p o q m) = reached (t.remove p o m) := by
  by_cases h0 : o = 0
  · rw [h0]
    rfl
  by_cases hq0 : q = 0
  · unfold insert
    rw [if_neg h0, if_pos hq0]
  unfold insert
  rw [if_neg h0, if_neg hq0]
  dsimp only
  rw [if_neg hne]
  cases hremove : t.remove p o m with
  | error fault m₁ => rw [bind_error hremove]
  | ok _ m₁ =>
    obtain ⟨fault, hchild⟩ : ∃ fault, t.child m₁ q = .error fault := link_error hq hq0 m₁ .child
    have hread : Edit.read (t.child · q) m₁ = .error fault m₁ := by simp only [Edit.read, hchild]
    rw [bind_ok hremove, bind_error hread]
    rfl

/-- **A move gives at most one object another parent, and leaves a forest**, whether it fails or
not. -/
theorem Forest.reached_move (hfit : t.Fits m.size) (hf : t.Forest m lists) (hp : t.Dynamic p)
    (move : Move) : t.Moved move m (reached (move.run t p m)) := by
  cases move with
  | remove o => exact hf.reached_remove hfit hp o
  | insert o q =>
    show t.Moved _ m (reached (t.insert p o q m))
    have hout := hf.reached_remove hfit hp o
    by_cases hsame : o = q
    · have hinsert : reached (t.insert p o q m) = m := by
        unfold insert
        by_cases h0 : o = 0
        · rw [if_pos h0]
          rfl
        · rw [if_neg h0, if_neg (hsame ▸ h0)]
          dsimp only
          rw [if_pos hsame]
          rfl
      rw [hinsert]
      refine ⟨rfl, ⟨_, hf⟩, ?_⟩
      rw [Move.reparents, if_pos (.inr hsame)]
      exact fun _ => rfl
    by_cases hq : t.IsObject q
    · by_cases ho : t.IsObject o
      · obtain ⟨m', hm', hinserted⟩ := hp.insert_ok hfit hf ho hq hsame
        rw [hm']
        refine ⟨hinserted.size, ⟨_, hf.inserted hfit ho hq hinserted⟩, ?_⟩
        rw [Move.reparents, if_neg (by simp [ho, hsame]), if_pos hq]
        exact hinserted.parent hfit hf ho hq
      · have hinsert : reached (t.insert p o q m) = m := by
          by_cases h0 : o = 0
          · rw [h0]
            rfl
          · obtain ⟨fault, hfault⟩ := remove_error ho h0 p m
            unfold insert
            rw [if_neg h0, if_neg hq.ne_zero]
            dsimp only
            rw [if_neg hsame, bind_error hfault]
            rfl
        rw [hinsert]
        refine ⟨rfl, ⟨_, hf⟩, ?_⟩
        rw [Move.reparents, if_pos (.inl ho)]
        exact fun _ => rfl
    · rw [reached_insert_of_not hq hsame]
      refine ⟨hout.size, hout.forest, ?_⟩
      have hparents := hout.parents
      simp only [Move.reparents] at hparents ⊢
      by_cases ho : t.IsObject o
      · rw [if_pos ho] at hparents
        rwa [if_neg (by simp [ho, hsame]), if_neg hq]
      · rw [if_neg ho] at hparents
        rwa [if_pos (.inl ho)]

/-- The move puts an object into one that it contains. -/
def Move.Buries (t : ObjectTable) (m : Memory) : Move → Prop
  | .remove _ => False
  | .insert o q => t.Contains m o q

/-- A move closes a circle if and only if it puts an object into one that it contains. -/
theorem Moved.acyclic_iff {move : Move} (h : t.Moved move m m') (hacyclic : t.Acyclic m) :
    t.Acyclic m' ↔ ¬ move.Buries t m := by
  have hparents := h.parents
  cases move with
  | remove o =>
    rw [Move.reparents] at hparents
    refine iff_of_true ?_ id
    by_cases ho : t.IsObject o
    · rw [if_pos ho] at hparents
      exact acyclic_of_no_parent hacyclic ho hparents
    · rw [if_neg ho] at hparents
      exact hacyclic.congr hparents
  | insert o q =>
    rw [Move.reparents] at hparents
    show _ ↔ ¬ t.Contains m o q
    by_cases hnone : ¬ t.IsObject o ∨ o = q
    · rw [if_pos hnone] at hparents
      refine iff_of_true (hacyclic.congr hparents) ?_
      rintro ⟨ho, k, hk⟩
      rcases hnone with hnot | rfl
      · exact hnot ho
      · exact hacyclic o ⟨ho, k, hk⟩
    rw [if_neg hnone] at hparents
    obtain ⟨ho, hne⟩ := not_or.1 hnone
    rw [Classical.not_not] at ho
    by_cases hq : t.IsObject q
    · rw [if_pos hq] at hparents
      rw [acyclic_reparented_iff hacyclic ho hparents]
      exact and_iff_right (Ne.symm hne)
    · rw [if_neg hq] at hparents
      refine iff_of_true (acyclic_of_no_parent hacyclic ho hparents) ?_
      -- there is no way up from what is no object
      rintro ⟨-, k, hk⟩
      obtain ⟨x, hx, -⟩ := follow_succ_eq_ok_iff.1 hk
      by_cases hq0 : q = 0
      · rw [hq0, follow_null] at hk
        exact ho.ne_zero (Except.ok.inj hk).symm
      · obtain ⟨fault, hfault⟩ := link_error hq hq0 m .parent
        rw [hfault] at hx
        cases hx

/-! ## Sequences of moves -/

/-- The memory that moves lead to, one after the other, whether they fail or not. -/
def Move.runAll (t : ObjectTable) (p : Protection) (moves : List Move) (m : Memory) : Memory :=
  moves.foldl (fun m move => reached (move.run t p m)) m

theorem Move.runAll_append (t : ObjectTable) (p : Protection) (before after : List Move)
    (m : Memory) : runAll t p (before ++ after) m = runAll t p after (runAll t p before m) :=
  List.foldl_append

/-- Moves leave a forest. -/
theorem Forest.reached_moves (hfit : t.Fits m.size) (hf : t.Forest m lists) (hp : t.Dynamic p)
    (moves : List Move) : (Move.runAll t p moves m).size = m.size ∧
      ∃ lists', t.Forest (Move.runAll t p moves m) lists' := by
  induction moves generalizing m lists with
  | nil => exact ⟨rfl, lists, hf⟩
  | cons move moves ih =>
    obtain ⟨hsize, ⟨lists', hf'⟩, -⟩ := hf.reached_move hfit hp move
    obtain ⟨hsize', hforest⟩ := ih (hsize.symm ▸ hfit) hf'
    exact ⟨hsize'.trans hsize, hforest⟩

/-- **Moves close no circle as long as none of them puts an object into one that it contains**, and
the first one that does closes one. -/
theorem Forest.acyclic_moves_iff (hfit : t.Fits m.size) (hf : t.Forest m lists) (hp : t.Dynamic p)
    (hacyclic : t.Acyclic m) (moves : List Move) :
    (∀ before, before <+: moves → t.Acyclic (Move.runAll t p before m)) ↔
      ∀ before move, before ++ [move] <+: moves → ¬ move.Buries t (Move.runAll t p before m) := by
  have hstep : ∀ before move, t.Acyclic (Move.runAll t p before m) →
      (t.Acyclic (Move.runAll t p (before ++ [move]) m) ↔
        ¬ move.Buries t (Move.runAll t p before m)) := by
    intro before move hbefore
    obtain ⟨hsize, lists', hf'⟩ := hf.reached_moves hfit hp before
    rw [Move.runAll_append]
    exact (hf'.reached_move (hsize.symm ▸ hfit) hp move).acyclic_iff hbefore
  constructor
  · intro hall before move hprefix
    have hbefore := hall before ((List.prefix_append before [move]).trans hprefix)
    exact (hstep before move hbefore).1 (hall _ hprefix)
  · intro hnone before
    induction before using List.reverseRecOn with
    | nil => exact fun _ => hacyclic
    | append_singleton before move ih =>
      intro hprefix
      have hbefore := ih ((List.prefix_append before [move]).trans hprefix)
      exact (hstep before move hbefore).2 (hnone before move hprefix)

/-! ## The objects of a story -/

theorem fits_of_load {image : Memory} {story : Story} (hload : Story.load image = .ok story)
    (hsize : m.size = image.size) : story.objects.Fits m.size := by
  obtain ⟨-, hread, hobjects⟩ := Story.load_ok hload
  rw [hsize, hobjects]
  exact locate_fits image (Header.tables_lt hread _ (by simp))

/-- **Objects come to contain themselves exactly by insertions into what they contain.**  In a table in
dynamic memory that holds a forest without circles, all moves leave a forest, whether they fail or not.
Following parents from any object ends within as many steps as there are objects, in every table reached,
if and only if no insertion puts an object into one that it contains at that moment. -/
theorem climb_moves_iff {image : Memory} {story : Story} (hload : Story.load image = .ok story)
    (hsize : m.size = image.size) (hf : story.objects.Forest m lists)
    (hacyclic : story.objects.Acyclic m) (hp : story.objects.Dynamic story.protection)
    (moves : List Move) :
    let t := story.objects
    let reach := fun before => Move.runAll t story.protection before m
    (∀ before, before <+: moves → ∃ lists', t.Forest (reach before) lists') ∧
    ((∀ before, before <+: moves → ∀ o, t.IsObject o →
        ∃ k ≤ t.count.toNat, t.follow (reach before) .parent k o = .ok 0) ↔
      ∀ before o q, before ++ [.insert o q] <+: moves → ¬ t.Contains (reach before) o q) := by
  intro t reach
  have hfit : t.Fits m.size := fits_of_load hload hsize
  have hforest : ∀ before, ∃ lists', t.Forest (reach before) lists' :=
    fun before => (hf.reached_moves hfit hp before).2
  refine ⟨fun before _ => hforest before, ?_⟩
  have hends : ∀ before, t.Acyclic (reach before) ↔ ∀ o, t.IsObject o →
      ∃ k ≤ t.count.toNat, t.follow (reach before) .parent k o = .ok 0 := by
    intro before
    obtain ⟨_, hf'⟩ := hforest before
    exact hf'.acyclic_iff
  simp only [← hends]
  rw [hf.acyclic_moves_iff hfit hp hacyclic moves]
  constructor
  · exact fun h before o q hprefix => h before _ hprefix
  · intro h before move hprefix
    cases move with
    | remove o => exact id
    | insert o q => exact h before o q hprefix

/-- An image whose object table, with a parent and its two children, lies behind the header. -/
def nestingImage : Memory :=
  let header : List UInt8 := [3, 0, 0, 0, 0, 0, 0, 0xA6, 0, 0xA8, 0, 0x40, 0, 0x9B, 0, 0xA6]
  let objects : List UInt8 :=
    [0, 0, 0, 0, 0, 0, 2, 0, 0x99] ++ [0, 0, 0, 0, 1, 3, 0, 0, 0x99] ++ [0, 0, 0, 0, 1, 0, 0, 0, 0x99]
  let code : List UInt8 := [0xBA, 0]
  let dictionary : List UInt8 := [0, 7, 0, 0]
  ⟨(header ++ .replicate 110 0 ++ objects ++ .replicate 13 0 ++ code ++ dictionary).toArray⟩

def nestingStory : Story := .ofImage nestingImage

theorem load_nesting : Story.load nestingImage = .ok nestingStory :=
  Story.load_ofImage (by decide +kernel)

theorem forest_nesting : nestingStory.objects.Forest nestingImage smallLists :=
  forest_of_three (by decide +kernel) (by decide +kernel)

theorem isObject_nesting : nestingStory.objects.IsObject o ↔ o = 1 ∨ o = 2 ∨ o = 3 :=
  isObject_of_three (by decide +kernel)

theorem acyclic_nesting : nestingStory.objects.Acyclic nestingImage := by
  refine forest_nesting.acyclic_iff.2 fun o ho => ?_
  rcases isObject_nesting.1 ho with rfl | rfl | rfl
  · exact ⟨1, by decide +kernel, by decide +kernel⟩
  · exact ⟨2, by decide +kernel, by decide +kernel⟩
  · exact ⟨2, by decide +kernel, by decide +kernel⟩

theorem dynamic_nesting : nestingStory.objects.Dynamic nestingStory.protection := by
  intro o ho
  have hstatic : nestingStory.protection.staticBase.toNat = 0xA6 := by decide +kernel
  rw [hstatic]
  rcases isObject_nesting.1 ho with rfl | rfl | rfl <;> decide +kernel

/-- The last of two children is moved into the first one. -/
theorem climb_moves_child :
    let t := nestingStory.objects
    ∀ o, t.IsObject o → ∃ k ≤ t.count.toNat,
      t.follow (Move.runAll t nestingStory.protection [.insert 3 2] nestingImage) .parent k o = .ok 0 := by
  intro t
  refine (climb_moves_iff load_nesting rfl forest_nesting acyclic_nesting dynamic_nesting
    [.insert 3 2]).2.2 ?_ _ List.prefix_rfl
  intro before o q hprefix
  have hlength := hprefix.length_le
  obtain rfl : before = [] := List.eq_nil_of_length_eq_zero (by simpa using hlength)
  obtain ⟨rfl, rfl⟩ : o = 3 ∧ q = 2 := by simpa using hprefix
  -- the way up from object 2 comes by object 1 only
  rintro ⟨-, k, hk⟩
  cases k with
  | zero => exact absurd hk (by decide +kernel)
  | succ k =>
    have hend : t.follow nestingImage .parent 2 2 = .ok 0 := by decide +kernel
    have hnull := follow_null_of_le hend (Nat.le_add_left 2 k)
    exact absurd (Except.ok.inj (hnull.symm.trans hk)) (by decide)

/-- **An object may be put into one of its children.**  It contains itself then, and the way up from it
never ends. -/
theorem insert_into_child_climbs :
    let t := nestingStory.objects
    ∃ m, t.insert nestingStory.protection 1 2 nestingImage = .ok () m ∧
      Story.load nestingImage = .ok nestingStory ∧ 0x40 ≤ t.address ∧
      t.Dynamic nestingStory.protection ∧ t.Forest nestingImage smallLists ∧ t.Acyclic nestingImage ∧
      t.IsObject 1 ∧ ∀ k, t.follow m .parent k 1 ≠ .ok 0 := by
  intro t
  have ho : t.IsObject 1 := isObject_nesting.2 (.inl rfl)
  have hq : t.IsObject 2 := isObject_nesting.2 (.inr (.inl rfl))
  have hfit : t.Fits nestingImage.size := fits_of_load load_nesting rfl
  obtain ⟨m, hm, -⟩ := dynamic_nesting.insert_ok hfit forest_nesting ho hq (by decide)
  refine ⟨m, hm, load_nesting, by decide +kernel, dynamic_nesting, forest_nesting, acyclic_nesting,
    ho, fun k hk => ?_⟩
  have hback : t.follow m .parent 2 1 = .ok 1 := by
    have hreached : reached (t.insert nestingStory.protection 1 2 nestingImage) = m := by rw [hm]; rfl
    rw [← hreached]
    decide +kernel
  have hagain := follow_mul hback k
  have hnull := follow_null_of_le hk (Nat.le_mul_of_pos_left k (Nat.succ_pos 1))
  exact absurd (Except.ok.inj (hnull.symm.trans hagain)) (by decide)

end ZCode.ObjectTable
