/-
What a nest of calls over packs leaves behind, however the packs were bound.

The user's packs in a pack are its leaves (`Pack.leaves`), and all that the
library adds by way of `bind` is promises. Those that are not settled form a path:
each has one binding, to the next one, up to a promise that nothing is bound to
(`Path`). So what has become of the promise at the end of a path is one of two
things (`Standing`): it is settled, or an inner promise at the head of a path is
waited for, with the leaves that the bindings on the path still have to run.
`advance` and `extend` say, in terms of leaves only, how an outcome moves a
standing on.

`set_callbacks_runs` is the step all proofs share: binding the promise at the end
of a path extends its standing. The three calls that a bound callback makes are
three applications of it (`bind_runs`).
-/
import Kaiu.PromisePack
import Kaiu.PromiseSchedule
import Mathlib.Algebra.GroupWithZero.Nat

set_option autoImplicit false

namespace Kaiu

open Exit

/-! ## Leaves -/

namespace Pack

variable {V E : Type*}

/-- The user's packs, from left to right. -/
def leaves : Pack V E → List (Stage V E)
  | .user name callbacks => [(name, callbacks)]
  | .bind self after => self.leaves ++ after.leaves

/-- A depth that the nest of a pack does not exceed. -/
def cost : Pack V E → ℕ
  | .user _ _ => 1
  | .bind self after => self.cost + after.cost + 3

end Pack

namespace Binding

variable {V E : Type*}

/-- The promise that a binding settles. -/
@[simp] def target : Binding V E → PromiseId
  | .forward_to next => next
  | .then_to promise _ => promise

/-- What a binding runs on the way. -/
@[simp] def stages : Binding V E → List (Stage V E)
  | .forward_to _ => []
  | .then_to _ pack => pack.leaves

@[simp] def cost : Binding V E → ℕ
  | .forward_to _ => 1
  | .then_to _ pack => pack.cost + 1

end Binding

/-- What has become of a promise: it is settled, or an inner promise is waited for,
and then there are leaves to be run. -/
inductive Standing (V E : Type*) where
  | settled (o : Outcome V E)
  | waits (i : PromiseId) (rest : List (Stage V E))

namespace Standing

variable {V E : Type*} {known : PromiseId → Option (Outcome V E)} {o : Outcome V E}
  {ss ts : List (Stage V E)} {i : PromiseId}

/-- The inner promise that is waited for. -/
def awaited : Standing V E → Option PromiseId
  | .settled _ => none
  | .waits i _ => some i

/-- The leaves that have not been run. -/
def rest : Standing V E → List (Stage V E)
  | .settled _ => []
  | .waits _ rest => rest

/-- The outcome, if there is one. -/
def outcome : Standing V E → Option (Outcome V E)
  | .settled o => some o
  | .waits _ _ => none

/-- What a callback came to, when `known` are the inner promises that have been
settled. -/
def of_result (known : PromiseId → Option (Outcome V E)) : StageResult V E → Standing V E
  | .settled o => .settled o
  | .inner i =>
    match known i with
    | some o => .settled o
    | none => .waits i []

/-- The leaves run on an outcome: where that ends, and the callbacks that run. -/
def advance (known : PromiseId → Option (Outcome V E)) :
    Outcome V E → List (Stage V E) → Standing V E × List (Event V E)
  | o, [] => (.settled o, [])
  | o, (name, pack) :: ss =>
    match of_result known (pack.result o) with
    | .settled o' => ((advance known o' ss).1, pack.events name o ++ (advance known o' ss).2)
    | .waits i rest => (.waits i (rest ++ ss), pack.events name o)

/-- The same from any standing: leaves behind a promise that is waited for have to
wait as well. -/
def extend (known : PromiseId → Option (Outcome V E)) (r : Standing V E)
    (ss : List (Stage V E)) : Standing V E × List (Event V E) :=
  match r with
  | .settled o => advance known o ss
  | .waits i rest => (.waits i (rest ++ ss), [])

@[simp] theorem extend_settled : extend known (.settled o) ss = advance known o ss := rfl

theorem advance_cons (s : Stage V E) :
    advance known o (s :: ss)
      = ((extend known (of_result known (s.2.result o)) ss).1,
          s.2.events s.1 o ++ (extend known (of_result known (s.2.result o)) ss).2) := by
  rw [advance]
  cases of_result known (s.2.result o) with
  | settled o' => rfl
  | waits i rest => simp [extend]

/-- The leaves of two packs run one after the other. The induction is on the leaves
of the first. -/
theorem advance_append :
    advance known o (ss ++ ts)
      = (((advance known o ss).1.extend known ts).1,
          (advance known o ss).2 ++ ((advance known o ss).1.extend known ts).2) := by
  induction ss generalizing o with
  | nil => simp [advance]
  | cons s ss ih =>
    rw [List.cons_append, advance_cons, advance_cons]
    cases of_result known (s.2.result o) with
    | settled o' => simp only [extend_settled, ih, List.append_assoc]
    | waits i rest => simp [extend]

theorem extend_append (r : Standing V E) :
    r.extend known (ss ++ ts)
      = (((r.extend known ss).1.extend known ts).1,
          (r.extend known ss).2 ++ ((r.extend known ss).1.extend known ts).2) := by
  cases r with
  | settled o => exact advance_append
  | waits i rest => simp [extend]

@[simp] theorem extend_nil (r : Standing V E) : r.extend known [] = (r, []) := by
  cases r <;> simp [extend, advance]

theorem rest_of_result (res : StageResult V E) : (of_result known res).rest = [] := by
  cases res with
  | settled o => rfl
  | inner i =>
    simp only [of_result]
    cases known i <;> rfl

/-- The leaves that have to wait are the last ones. -/
theorem rest_advance : (advance known o ss).1.rest.Sublist ss := by
  induction ss generalizing o with
  | nil => exact .slnil
  | cons s ss ih =>
    rw [advance_cons]
    have hrest : (of_result known (s.2.result o)).rest = [] := rest_of_result (s.2.result o)
    cases hres : of_result known (s.2.result o) with
    | settled o' => exact ih.cons s
    | waits i rest =>
      obtain rfl : rest = [] := by simpa [hres, Standing.rest] using hrest
      exact (List.Sublist.refl ss).cons s

theorem rest_extend (r : Standing V E) : (r.extend known ss).1.rest.Sublist (r.rest ++ ss) := by
  cases r with
  | settled o => exact rest_advance
  | waits i rest => exact .refl _

/-- A null pointer comes to one of the leaves that run, which has no handler. -/
def crashes (known : PromiseId → Option (Outcome V E)) : Outcome V E → List (Stage V E) → Bool
  | _, [] => false
  | o, (_, pack) :: ss =>
    pack.crashes o ||
      match of_result known (pack.result o) with
      | .settled o' => crashes known o' ss
      | .waits _ _ => false

/-- The same from any standing: leaves that have to wait do not run. -/
def crashes_from (known : PromiseId → Option (Outcome V E)) (r : Standing V E)
    (ss : List (Stage V E)) : Bool :=
  match r with
  | .settled o => crashes known o ss
  | .waits _ _ => false

theorem crashes_cons (s : Stage V E) :
    crashes known o (s :: ss)
      = (s.2.crashes o || crashes_from known (of_result known (s.2.result o)) ss) := by
  rw [crashes]
  cases of_result known (s.2.result o) <;> rfl

theorem crashes_append :
    crashes known o (ss ++ ts)
      = (crashes known o ss || crashes_from known (advance known o ss).1 ts) := by
  induction ss generalizing o with
  | nil => rfl
  | cons s ss ih =>
    rw [List.cons_append, crashes_cons, crashes_cons, advance_cons, Bool.or_assoc]
    cases of_result known (s.2.result o) with
    | settled o' => simp only [crashes_from, ih, extend_settled]
    | waits i rest => rfl

theorem crashes_from_append (r : Standing V E) :
    crashes_from known r (ss ++ ts)
      = (crashes_from known r ss || crashes_from known (r.extend known ss).1 ts) := by
  cases r with
  | settled o => exact crashes_append
  | waits i rest => rfl

/-- What is waited for is not given up. -/
theorem extend_awaited {r : Standing V E} (hr : r.awaited = some i) :
    (r.extend known ss).1.awaited = some i := by
  cases r with
  | settled o => cases hr
  | waits j rest => exact hr

end Standing

/-! ## What an operation leaves alone -/

namespace Store

variable {V E K : Type*} {p : PromiseId} {st st' : Store V E K}

/-- A promise that is there, and whose lock can be taken. -/
def Free (st : Store V E K) (p : ℕ) : Prop := p < st.size ∧ p ∉ st.held

/-- The locks are as before, and so are the promises that were there, but for those
that satisfy `P`. -/
structure Frame (P : PromiseId → Prop) (st st' : Store V E K) : Prop where
  held_eq : st'.held = st.held
  size_le : st.size ≤ st'.size
  cells_eq : ∀ x : ℕ, x < st.size → ¬ P x → st'.cells x = st.cells x

variable {P Q R : PromiseId → Prop} {st₁ st₂ : Store V E K}

theorem Frame.refl (P : PromiseId → Prop) (st : Store V E K) : Frame P st st :=
  ⟨rfl, Nat.le_refl _, fun _ _ _ => rfl⟩

/-- Promises that were not there before need not be mentioned. -/
theorem Frame.trans (h₁ : Frame P st st₁) (h₂ : Frame Q st₁ st₂)
    (hP : ∀ x : ℕ, x < st.size → P x → R x) (hQ : ∀ x : ℕ, x < st.size → Q x → R x) :
    Frame R st st₂ where
  held_eq := h₂.held_eq.trans h₁.held_eq
  size_le := Nat.le_trans h₁.size_le h₂.size_le
  cells_eq x hlt hx := by
    have hlt₁ : x < st₁.size := Nat.lt_of_lt_of_le hlt h₁.size_le
    rw [h₂.cells_eq x hlt₁ fun hQx => hx (hQ x hlt hQx),
      h₁.cells_eq x hlt fun hPx => hx (hP x hlt hPx)]

theorem Frame.mono (h : Frame P st st') (hP : ∀ x : ℕ, x < st.size → P x → Q x) :
    Frame Q st st' :=
  h.trans (Frame.refl Q st') hP fun _ _ hx => hx

theorem Frame.logged (P : PromiseId → Prop) (st : Store V E K) (events : List (Event V E)) :
    Frame P st (st.logged events) :=
  ⟨rfl, Nat.le_refl _, fun _ _ _ => rfl⟩

/-- The lock of `p` was held for the operation, and `p` is changed at its end. -/
theorem Frame.unlock (h : Frame P { st with held := p :: st.held } st')
    (cell : PromiseState V E K) :
    Frame (fun x => x = p ∨ P x) st
      { st' with cells := Function.update st'.cells p cell, held := st.held } where
  held_eq := rfl
  size_le := h.size_le
  cells_eq x hlt hx := by
    have hne : x ≠ p := fun heq => hx (Or.inl heq)
    simp only [Function.update_of_ne hne]
    exact h.cells_eq x hlt fun hPx => hx (Or.inr hPx)

/-- One promise is changed. -/
theorem Frame.update (st : Store V E K) (p : PromiseId) (cell : PromiseState V E K) :
    Frame (fun x => x = p) st { st with cells := Function.update st.cells p cell } where
  held_eq := rfl
  size_le := Nat.le_refl _
  cells_eq _ _ hx := Function.update_of_ne hx ..

/-- One promise is made. -/
theorem Frame.push (P : PromiseId → Prop) (st : Store V E K) (cell : PromiseState V E K) :
    Frame P st { st with cells := Function.update st.cells st.size cell, size := st.size + 1 } where
  held_eq := rfl
  size_le := Nat.le_succ _
  cells_eq _ hlt _ := Function.update_of_ne (Nat.ne_of_lt hlt) ..

theorem Frame.free {x : ℕ} (h : Frame P st st') (hx : st.Free x) : st'.Free x := by
  refine ⟨Nat.lt_of_lt_of_le hx.1 h.size_le, ?_⟩
  rw [h.held_eq]
  exact hx.2

end Store

/-! ## Paths of bindings -/

section Paths

variable {V E : Type*}

/-- Promises of packs. -/
abbrev PackCells (V E : Type*) := PromiseId → PromiseState V E (Binding V E)

/-- The bindings `ks` lead from the promise `p` to one that nothing is bound to;
none of them is settled. -/
def Linked (cells : PackCells V E) : PromiseId → List (Binding V E) → Prop
  | p, [] => Unbound (cells p)
  | p, k :: ks => BoundTo (cells p) k ∧ Linked cells k.target ks

/-- The promises of a path. -/
def path_ids (p : PromiseId) (ks : List (Binding V E)) : List PromiseId :=
  p :: ks.map Binding.target

/-- The promise at the end of a path. -/
def path_end : PromiseId → List (Binding V E) → PromiseId
  | p, [] => p
  | _, k :: ks => path_end k.target ks

/-- The leaves that the bindings of a path still have to run. -/
def path_stages (ks : List (Binding V E)) : List (Stage V E) := ks.flatMap Binding.stages

/-- A depth that the nest of a path does not exceed. -/
def path_cost (ks : List (Binding V E)) : ℕ := (ks.map Binding.cost).sum

variable {cells cells' : PackCells V E} {p y : PromiseId} {k : Binding V E}
  {ks ls : List (Binding V E)}

theorem path_end_append (p : PromiseId) (ks : List (Binding V E)) (k : Binding V E)
    (ls : List (Binding V E)) : path_end p (ks ++ k :: ls) = path_end k.target ls := by
  induction ks generalizing p with
  | nil => rfl
  | cons k' ks ih => exact ih k'.target

theorem path_end_mem (p : PromiseId) (ks : List (Binding V E)) : path_end p ks ∈ path_ids p ks := by
  induction ks generalizing p with
  | nil => exact List.mem_cons_self ..
  | cons k ks ih => exact List.mem_cons_of_mem p (ih k.target)

theorem path_stages_append : path_stages (ks ++ ls) = path_stages ks ++ path_stages ls :=
  List.flatMap_append ..

@[simp] theorem path_stages_cons : path_stages (k :: ks) = k.stages ++ path_stages ks := rfl

@[simp] theorem path_stages_nil : path_stages ([] : List (Binding V E)) = [] := rfl

@[simp] theorem path_cost_cons : path_cost (k :: ks) = k.cost + path_cost ks := by
  simp [path_cost]

@[simp] theorem path_cost_nil : path_cost ([] : List (Binding V E)) = 0 := rfl

theorem path_cost_append : path_cost (ks ++ ls) = path_cost ks + path_cost ls := by
  simp [path_cost]

/-- A promise has one binding, so one path leaves it. -/
theorem Linked.unique (hk : Linked cells p ks) (hl : Linked cells p ls) : ks = ls := by
  induction ks generalizing p ls with
  | nil =>
    cases ls with
    | nil => rfl
    | cons l ls =>
      have hassigned := hl.1.assigned
      rw [hk.unbound] at hassigned
      cases hassigned
  | cons k ks ih =>
    cases ls with
    | nil =>
      have hassigned := hk.1.assigned
      rw [hl.unbound] at hassigned
      cases hassigned
    | cons l ls =>
      obtain rfl : k = l := Option.some.inj (hk.1.callbacks.symm.trans hl.1.callbacks)
      rw [ih hk.2 hl.2]

/-- A path leaves each of its promises. -/
theorem Linked.suffix {x : PromiseId} (hk : Linked cells p ks) (hx : x ∈ path_ids p ks) :
    ∃ ls, Linked cells x ls ∧ ls.length ≤ ks.length := by
  induction ks generalizing p with
  | nil =>
    obtain rfl : x = p := by simpa [path_ids] using hx
    exact ⟨[], hk, Nat.le_refl _⟩
  | cons k ks ih =>
    rcases List.mem_cons.mp hx with rfl | hx
    · exact ⟨k :: ks, hk, Nat.le_refl _⟩
    · obtain ⟨ls, hls, hlen⟩ := ih hk.2 hx
      exact ⟨ls, hls, Nat.le_succ_of_le hlen⟩

/-- A path does not come back. -/
theorem Linked.not_mem (hk : Linked cells p (k :: ks)) : p ∉ path_ids k.target ks := by
  intro hmem
  -- the path from where it came back would be the whole path
  obtain ⟨ls, hls, hlen⟩ := hk.2.suffix hmem
  have heq : k :: ks = ls := hk.unique hls
  rw [← heq, List.length_cons] at hlen
  omega

theorem Linked.congr (hk : Linked cells p ks) (hcells : ∀ x ∈ path_ids p ks, cells' x = cells x) :
    Linked cells' p ks := by
  induction ks generalizing p with
  | nil =>
    rw [Linked, hcells p (List.mem_cons_self ..)]
    exact hk
  | cons k ks ih =>
    refine ⟨?_, ih hk.2 fun x hx => hcells x (List.mem_cons_of_mem p hx)⟩
    rw [hcells p (List.mem_cons_self ..)]
    exact hk.1

theorem Linked.end_unbound (hk : Linked cells p ks) : Unbound (cells (path_end p ks)) := by
  induction ks generalizing p with
  | nil => exact hk
  | cons k ks ih => exact ih hk.2

/-- **Binding the end of a path** to the head of another one. The induction is on the
bindings of the first. -/
theorem Linked.bind (hk : Linked cells p ks) (hl : Linked cells k.target ls)
    (hend : path_end p ks ∉ path_ids k.target ls) :
    Linked (Function.update cells (path_end p ks)
      (PromiseState.bound k (cells (path_end p ks)))) p (ks ++ k :: ls) := by
  induction ks generalizing p with
  | nil =>
    have hp : Unbound (cells p) := hk
    refine ⟨?_, hl.congr fun x hx => ?_⟩
    · simpa [path_end] using hp.boundTo k
    · have hne : x ≠ p := by
        rintro rfl
        exact hend hx
      exact Function.update_of_ne hne ..
  | cons k' ks ih =>
    have hne : p ≠ path_end k'.target ks := fun heq =>
      hk.not_mem (heq ▸ path_end_mem k'.target ks)
    refine ⟨?_, ih hk.2 hend⟩
    rw [path_end, Function.update_of_ne hne]
    exact hk.1

end Paths

/-! ## What a nest starts from and what it leaves -/

section Nest

variable {V E : Type*} {m w v n : ℕ} {known : PromiseId → Option (Outcome V E)}
  {st st' st₁ st₂ : Store V E (Binding V E)} {p y : ℕ} {k : Binding V E} {ks : List (Binding V E)}
  {ss ts : List (Stage V E)} {r r₁ r₂ : Standing V E × List (Event V E)} {own own₁ own₂ : List ℕ}

open Store

/-- A path whose locks can be taken. The promises `0` to `m` are the inner ones, and
only the first promise of a path can be one of them. -/
structure Path (m : ℕ) (st : Store V E (Binding V E)) (p : ℕ) (ks : List (Binding V E)) :
    Prop where
  linked : Linked st.cells p ks
  free : ∀ x ∈ path_ids p ks, st.Free x
  later : ∀ x ∈ ks.map Binding.target, m < x

/-- An inner promise that no callback has returned yet. -/
def Untouched (known : PromiseId → Option (Outcome V E)) (cells : PackCells V E) (i : PromiseId) :
    Prop :=
  match known i with
  | some o => SettledWith (cells i) o
  | none => Unbound (cells i)

/-- The leaves `ss` can be run: the promises they can return have not been returned,
and no two of the leaves can return the same one. -/
structure Fit (m : ℕ) (known : PromiseId → Option (Outcome V E))
    (st : Store V E (Binding V E)) (ss : List (Stage V E)) : Prop where
  size : m < st.size
  held : ∀ x ∈ st.held, x < st.size
  range : ∀ i : ℕ, Inners ss i → 1 ≤ i ∧ i ≤ m
  untouched : ∀ i : ℕ, Inners ss i → i ∉ st.held ∧ Untouched known st.cells i
  pairwise : ss.Pairwise fun s t => ∀ i, s.2.Returns i → ¬ t.2.Returns i

/-- The promise `y` has the standing; a path to it does not cost more than `w`. -/
def Stands (m : ℕ) (st : Store V E (Binding V E)) (y : ℕ) : Standing V E → ℕ → Prop
  | .settled o, _ => SettledWith (st.cells y) o ∧ st.Free y
  | .waits i rest, w => ∃ ks, Path m st i ks ∧ path_end i ks = y ∧ path_stages ks = rest ∧
      path_cost ks ≤ w

/-- What running the leaves `ss` can change: the promises `own`, and the inner
promises of the leaves that have not been left to wait; of these, one that is not
settled is waited for at the end. -/
def Touches (known : PromiseId → Option (Outcome V E)) (own : List ℕ) (ss : List (Stage V E))
    (r : Standing V E) (x : PromiseId) : Prop :=
  x ∈ own ∨ (Inners ss x ∧ ¬ Inners r.rest x ∧ (known x = none → r.awaited = some x))

/-- The leaves `ss` have been run: `y` has the standing `r.1`, and the callbacks `r.2`
have run. -/
structure Leads (m : ℕ) (known : PromiseId → Option (Outcome V E)) (own : List ℕ)
    (ss : List (Stage V E)) (st : Store V E (Binding V E)) (y : ℕ)
    (r : Standing V E × List (Event V E)) (w : ℕ) (st' : Store V E (Binding V E)) : Prop where
  log_eq : st'.log = st.log ++ r.2
  frame : Frame (Touches known own ss r.1) st st'
  stands : Stands m st' y r.1 w

theorem inners_sublist {i : ℕ} (hsub : ts.Sublist ss) (hi : Inners ts i) : Inners ss i := by
  obtain ⟨s, hs, hsi⟩ := hi
  exact ⟨s, hsub.subset hs, hsi⟩

theorem Path.frame {P : PromiseId → Prop} (hp : Path m st p ks) (hf : Frame P st st')
    (hP : ∀ x ∈ path_ids p ks, ¬ P x) : Path m st' p ks where
  linked := hp.linked.congr fun x hx => hf.cells_eq x (hp.free x hx).1 (hP x hx)
  free x hx := hf.free (hp.free x hx)
  later := hp.later

theorem Fit.frame {P : PromiseId → Prop} (hs : Fit m known st ss) (hf : Frame P st st')
    (hP : ∀ i, Inners ss i → ¬ P i) : Fit m known st' ss where
  size := Nat.lt_of_lt_of_le hs.size hf.size_le
  held x hx := by
    rw [hf.held_eq] at hx
    exact Nat.lt_of_lt_of_le (hs.held x hx) hf.size_le
  range := hs.range
  untouched i hi := by
    have hsize := hs.size
    have hlt : i < st.size := Nat.lt_of_le_of_lt (hs.range i hi).2 hs.size
    rw [hf.held_eq, Untouched, hf.cells_eq i hlt (hP i hi)]
    exact hs.untouched i hi
  pairwise := hs.pairwise

theorem Fit.sublist (hs : Fit m known st ss) (hsub : ts.Sublist ss) : Fit m known st ts where
  size := hs.size
  held := hs.held
  range i hi := hs.range i (inners_sublist hsub hi)
  untouched i hi := hs.untouched i (inners_sublist hsub hi)
  pairwise := hs.pairwise.sublist hsub

theorem Fit.left (hs : Fit m known st (ss ++ ts)) : Fit m known st ss :=
  hs.sublist (List.sublist_append_left ss ts)

theorem Fit.right (hs : Fit m known st (ss ++ ts)) : Fit m known st ts :=
  hs.sublist (List.sublist_append_right ss ts)

/-- Leaves in different places return different promises. -/
theorem Fit.apart {i : ℕ} (hs : Fit m known st (ss ++ ts)) (hi : Inners ss i) : ¬ Inners ts i := by
  obtain ⟨s, hs', hsi⟩ := hi
  rintro ⟨t, ht, hti⟩
  exact (List.pairwise_append.mp hs.pairwise).2.2 s hs' t ht i hsi hti

/-- The lock of a promise that no leaf returns is taken. -/
theorem Fit.lock (hs : Fit m known st ss) (hp : p < st.size) (hi : ¬ Inners ss p) :
    Fit m known { st with held := p :: st.held } ss where
  size := hs.size
  held x hx := by
    rcases List.mem_cons.mp hx with rfl | hx
    · exact hp
    · exact hs.held x hx
  range := hs.range
  untouched i hi' := by
    refine ⟨fun hmem => ?_, (hs.untouched i hi').2⟩
    rcases List.mem_cons.mp hmem with rfl | hmem
    · exact hi hi'
    · exact (hs.untouched i hi').1 hmem
  pairwise := hs.pairwise

theorem Path.lock (hp : Path m st y ks) (hne : p ∉ path_ids y ks) :
    Path m { st with held := p :: st.held } y ks where
  linked := hp.linked
  free x hx := by
    refine ⟨(hp.free x hx).1, fun hmem => ?_⟩
    rcases List.mem_cons.mp hmem with rfl | hmem
    · exact hne hx
    · exact (hp.free x hx).2 hmem
  later := hp.later

theorem Path.tail (hp : Path m st p (k :: ks)) : Path m st k.target ks where
  linked := hp.linked.2
  free x hx := hp.free x (List.mem_cons_of_mem p hx)
  later x hx := hp.later x (List.mem_cons_of_mem _ hx)

/-- The rest of a path whose first lock is taken. -/
theorem Path.lock_tail (hp : Path m st p (k :: ks)) :
    Path m { st with held := p :: st.held } k.target ks :=
  hp.tail.lock hp.linked.not_mem

/-- The promises of a path are none that a leaf returns. -/
theorem Path.not_inner (hp : Path m st y ks) (hy : m < y) (hs : Fit m known st ss) {x : ℕ}
    (hx : x ∈ path_ids y ks) : ¬ Inners ss x := by
  intro hi
  have hle := (hs.range x hi).2
  rcases List.mem_cons.mp hx with rfl | hx
  · omega
  · have hlt := hp.later x hx
    omega

theorem Stands.mono {s : Standing V E} (hs : Stands m st y s w) (hle : w ≤ v) :
    Stands m st y s v := by
  cases s with
  | settled o => exact hs
  | waits i rest =>
    obtain ⟨ks, hp, hend, hstages, hcost⟩ := hs
    exact ⟨ks, hp, hend, hstages, Nat.le_trans hcost hle⟩

theorem Stands.free {s : Standing V E} (hs : Stands m st y s w) : st.Free y := by
  cases s with
  | settled o => exact hs.2
  | waits i rest =>
    obtain ⟨ks, hp, rfl, -⟩ := hs
    exact hp.free _ (path_end_mem i ks)

theorem Stands.frame {P : PromiseId → Prop} {s : Standing V E} (hs : Stands m st y s w)
    (hf : Frame P st st') (hP : ∀ x, ¬ P x) : Stands m st' y s w := by
  cases s with
  | settled o =>
    refine ⟨?_, hf.free hs.2⟩
    rw [hf.cells_eq y hs.2.1 (hP y)]
    exact hs.1
  | waits i rest =>
    obtain ⟨ks, hp, hrest⟩ := hs
    exact ⟨ks, hp.frame hf fun x _ => hP x, hrest⟩

/-- What a promise that is free stands at does not depend on the promises whose locks
are held. -/
theorem Stands.unlock {s : Standing V E} (hs : Stands m st' y s w)
    (hheld : st'.held = p :: st.held) (cell : PromiseState V E (Binding V E)) :
    Stands m { st' with cells := Function.update st'.cells p cell, held := st.held } y s w := by
  have hne : ∀ x, st'.Free x → x ≠ p := by
    rintro x hx rfl
    exact hx.2 (hheld ▸ List.mem_cons_self ..)
  have hfree : ∀ x, st'.Free x →
      Store.Free { st' with cells := Function.update st'.cells p cell, held := st.held } x := by
    intro x hx
    refine ⟨hx.1, fun hmem => hx.2 ?_⟩
    rw [hheld]
    exact List.mem_cons_of_mem p hmem
  cases s with
  | settled o =>
    refine ⟨?_, hfree y hs.2⟩
    simp only [Function.update_of_ne (hne y hs.2)]
    exact hs.1
  | waits i rest =>
    obtain ⟨ks, hp, hend, hstages, hcost⟩ := hs
    refine ⟨ks, ⟨?_, fun x hx => hfree x (hp.free x hx), hp.later⟩, hend, hstages, hcost⟩
    exact hp.linked.congr fun x hx => Function.update_of_ne (hne x (hp.free x hx)) ..

/-- The nest ran with the lock of `p` held, and changes `p` at its end. -/
theorem Leads.unlock (hl : Leads m known own ss { st with held := p :: st.held } y r w st')
    (cell : PromiseState V E (Binding V E)) :
    Leads m known (p :: own) ss st y r w
      { st' with cells := Function.update st'.cells p cell, held := st.held } where
  log_eq := hl.log_eq
  frame := by
    refine (hl.frame.unlock cell).mono fun x _ hx => ?_
    rcases hx with rfl | hown | hinner
    · exact Or.inl (List.mem_cons_self ..)
    · exact Or.inl (List.mem_cons_of_mem p hown)
    · exact Or.inr hinner
  stands := hl.stands.unlock hl.frame.held_eq cell

theorem Leads.mono (hl : Leads m known own ss st y r w st')
    (hown : ∀ x : ℕ, x < st.size → x ∈ own → x ∈ own₁) (hle : w ≤ v) :
    Leads m known own₁ ss st y r v st' where
  log_eq := hl.log_eq
  frame := hl.frame.mono fun x hlt hx => hx.imp (hown x hlt) id
  stands := hl.stands.mono hle

/-- **Two runs, one after the other**: the second goes on from the standing that the
first has come to. -/
theorem Leads.trans {z : ℕ} (hl₁ : Leads m known own₁ ss st y r₁ w st₁)
    (hl₂ : Leads m known own₂ ts st₁ z (r₁.1.extend known ts) v st₂)
    (hfit : Fit m known st (ss ++ ts)) (hown₁ : ∀ x : ℕ, x < st.size → x ∈ own₁ → x ∈ own)
    (hown₂ : ∀ x : ℕ, x < st.size → x ∈ own₂ →
      Touches known own (ss ++ ts) (r₁.1.extend known ts).1 x) :
    Leads m known own (ss ++ ts) st z
      ((r₁.1.extend known ts).1, r₁.2 ++ (r₁.1.extend known ts).2) v st₂ where
  log_eq := by
    rw [hl₂.log_eq, hl₁.log_eq, List.append_assoc]
  frame := by
    refine hl₁.frame.trans hl₂.frame (fun x hlt hx => ?_) fun x hlt hx => ?_
    · rcases hx with hx | ⟨hi, hrest, hx⟩
      · exact Or.inl (hown₁ x hlt hx)
      · refine Or.inr ⟨inners_append.mpr (Or.inl hi), fun hmem => ?_,
          fun hn => Standing.extend_awaited (hx hn)⟩
        -- what has to wait after both runs had to wait after the first, or is of the second
        have hmem' := inners_sublist (Standing.rest_extend r₁.1) hmem
        exact (inners_append.mp hmem').elim hrest (hfit.apart hi)
    · rcases hx with hx | ⟨hi, hx⟩
      · exact hown₂ x hlt hx
      · exact Or.inr ⟨inners_append.mpr (Or.inr hi), hx⟩
  stands := hl₂.stands

/-- Later leaves can still be run after the first ones. -/
theorem Leads.fit (hl : Leads m known own ss st y r w st') (hs : Fit m known st (ss ++ ts))
    (hown : ∀ i : ℕ, Inners ts i → i ∉ own) : Fit m known st' ts := by
  refine hs.right.frame hl.frame fun i hi hx => ?_
  rcases hx with hx | ⟨hi', -⟩
  · exact hown i hi hx
  · exact hs.apart hi' hi

/-- A path that the run does not know is still there. -/
theorem Leads.path (hl : Leads m known own ss st y r w st') (hs : Fit m known st ss)
    (hp : Path m st p ks) (hlater : m < p) (hown : ∀ x ∈ path_ids p ks, x ∉ own) :
    Path m st' p ks := by
  refine hp.frame hl.frame fun x hx hxs => ?_
  rcases hxs with hxs | ⟨hi, -⟩
  · exact hown x hx hxs
  · exact hp.not_inner hlater hs hx hi

end Nest

end Kaiu
