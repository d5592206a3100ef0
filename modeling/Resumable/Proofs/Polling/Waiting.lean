import Resumable.Proofs.Polling.Programs
import Resumable.Proofs.Promises.Runs

/-!
Generators that wait for a promise, themselves or through others that they delegate to. To call one
with `next` before the settlement has arrived gives the promise again and leaves no trace. Main
statement: `World.Waits.poll`.
-/

set_option autoImplicit false

namespace Resumable

/-- Whether a generator waits for a promise the settlement of which has not arrived, with so many
delegations in between. -/
inductive World.Waits (w : World) (promise : Value) : Nat → InstanceId → Prop where
  | here {id : InstanceId} {g : Instance} {cell : CellId} : w.instances[id]? = some g →
    g.parked = some ⟨promise, cell⟩ → w.cells[cell]? = some none → Waits w promise 0 id
  | through {n : Nat} {id inner : InstanceId} {g : Instance} : w.instances[id]? = some g → g.Relays →
    g.delegate? = some inner → Waits w promise n inner → Waits w promise (n + 1) id

instance (g : Instance) : Decidable g.Relays :=
  decidable_of_iff (g.status = .suspendedYield ∧ g.parked.isNone = true ∧ g.isAsync = false ∧
      g.delegate?.isSome = true)
    ⟨fun ⟨hs, hp, ha, hd⟩ => ⟨hs, Option.isNone_iff_eq_none.1 hp, ha, hd⟩,
      fun h => ⟨h.status, Option.isNone_iff_eq_none.2 h.parked, h.isAsync, h.delegate⟩⟩

/-- What a generator waits for with so many delegations in between. -/
def World.awaited? (w : World) : Nat → InstanceId → Option Value
  | 0, id => do
    let p ← (← w.instances[id]?).parked
    match w.cells[p.cell]? with
    | some none => some p.promise
    | some (some _) | none => none
  | n + 1, id => do
    let g ← w.instances[id]?
    if g.Relays then w.awaited? n (← g.delegate?) else none

/-- Whether worlds are the same but for calls that generators have passed on. -/
structure World.Resembles (w w' : World) : Prop where
  rest : { w with instances := w'.instances } = w'
  size : w'.instances.size = w.instances.size
  twin : ∀ (i : InstanceId) (g g' : Instance), w.instances[i]? = some g →
    w'.instances[i]? = some g' → g.Twin g'

namespace World

section Resembles

variable {w w' w'' : World}

theorem Resembles.refl (w : World) : w.Resembles w :=
  ⟨rfl, rfl, fun _ _ _ h h' => .same (Option.some.inj (h'.symm.trans h))⟩

theorem Resembles.symm (h : w.Resembles w') : w'.Resembles w :=
  ⟨by rw [← h.rest], h.size.symm, fun i g g' hg hg' => (h.twin i g' g hg' hg).symm⟩

theorem Resembles.trans (h : w.Resembles w') (h' : w'.Resembles w'') : w.Resembles w'' where
  rest := by rw [← h'.rest, ← h.rest]
  size := h'.size.trans h.size
  twin i g g'' hg hg'' := by
    have hlt : i < w'.instances.size := by
      rw [h.size]
      exact (Array.getElem?_eq_some_iff.1 hg).1
    have hg' : w'.instances[i]? = some w'.instances[i] := Array.getElem?_eq_getElem hlt
    exact (h.twin i g _ hg hg').trans (h'.twin i _ g'' hg' hg'')

theorem Alike.resembles {F E : Set InstanceId} (h : w.Alike F E w') : w.Resembles w' :=
  ⟨h.rest, h.size, h.twin⟩

end Resembles

section Waiting

variable {w w' : World} {promise : Value} {n m : Nat} {id i : InstanceId} {g : Instance}

theorem waits_iff (w : World) {promise : Value} {n : Nat} {id : InstanceId} :
    w.Waits promise n id ↔ w.awaited? n id = some promise := by
  constructor
  · intro h
    induction h with
    | here hg hparked hcell => simp [awaited?, hg, hparked, hcell]
    | through hg hrelays hinner _ ih => simp [awaited?, hg, hrelays, hinner, ih]
  · intro h
    induction n generalizing id with
    | zero =>
      obtain ⟨g, hg, h⟩ := Option.bind_eq_some_iff.1 h
      obtain ⟨⟨q, cell⟩, hparked, h⟩ := Option.bind_eq_some_iff.1 h
      dsimp only at h
      split at h
      · next hcell =>
        cases h
        exact .here hg hparked hcell
      · cases h
      · cases h
    | succ n ih =>
      obtain ⟨g, hg, h⟩ := Option.bind_eq_some_iff.1 h
      split at h
      · next hrelays =>
        obtain ⟨inner, hinner, h⟩ := Option.bind_eq_some_iff.1 h
        exact .through hg hrelays hinner (ih h)
      · cases h

theorem Waits.depth_unique (h : w.Waits promise n id) (h' : w.Waits promise m id) : n = m := by
  induction h generalizing m with
  | here hg hparked _ =>
    cases h' with
    | here => rfl
    | through hg' hrelays =>
      cases hg.symm.trans hg'
      cases hparked.symm.trans hrelays.parked
  | through hg hrelays hinner _ ih =>
    cases h' with
    | here hg' hparked =>
      cases hg.symm.trans hg'
      cases hparked.symm.trans hrelays.parked
    | through hg' _ hinner' hwait =>
      cases hg.symm.trans hg'
      cases hinner.symm.trans hinner'
      rw [ih hwait]

theorem Waits.put_outer (h : w.Waits promise n id) (hi : w.Waits promise m i) (hlt : n < m) :
    (w.put i g).Waits promise n id := by
  have hne {k : Nat} {j : InstanceId} (hj : w.Waits promise k j) (hk : k < m) : i ≠ j := by
    rintro rfl
    exact (Nat.ne_of_lt hk) (hj.depth_unique hi)
  induction h with
  | here hg hparked hcell =>
    exact .here ((put_other (hne (.here hg hparked hcell) hlt)).trans hg) hparked hcell
  | through hg hrelays hinner hwait ih =>
    exact .through ((put_other (hne (.through hg hrelays hinner hwait) hlt)).trans hg) hrelays hinner
      (ih (Nat.lt_of_succ_lt hlt))

end Waiting

end World

/-- What a poll leaves behind, inside a chain of generators that execute. -/
structure World.Polled (outer : List InstanceId) (w w' : World) : Prop where
  rest : { w with instances := w'.instances } = w'
  size : w'.instances.size = w.instances.size
  chain : ∀ i ∈ outer, w'.instances[i]? = w.instances[i]?.map Instance.suspend
  others : ∀ i ∉ outer, w'.instances[i]? = w.instances[i]? ∨
    ∃ g : Instance, w.instances[i]? = some g ∧ g.Relays ∧ w'.instances[i]? = some g.forget

section Polls

variable {w : World} {promise : Value} {n : Nat} {id : InstanceId} {outer : List InstanceId}

theorem takeCell_empty {cell : CellId} (h : w.cells[cell]? = some none) :
    Edit.takeCell cell w = (none, w) := by
  have hcells : w.cells.setIfInBounds cell none = w.cells := by
    refine Array.ext_getElem? fun i => ?_
    rw [Array.getElem?_setIfInBounds]
    split
    · next hi =>
      subst hi
      rw [h, if_pos (Array.getElem?_eq_some_iff.1 h).1]
    · rfl
  show (w.cells[cell]?.join, { w with cells := w.cells.setIfInBounds cell none }) = (none, w)
  rw [hcells, h]
  rfl

theorem resumeOne_parked {g : Instance} {cell : CellId} (host : Host) (hg : w.instances[id]? = some g)
    (hparked : g.parked = some ⟨promise, cell⟩) (hcell : w.cells[cell]? = some none) (v : Value) :
    resumeOne host id (.next v) w = .done (.stop (.awaiting promise)) w := by
  have hunpark : (liftM (unpark id g (.next v)) : Run _) w = .done (.error promise) w := by
    show Outcome.done (unpark id g (.next v) w).1 (unpark id g (.next v) w).2 = _
    simp only [unpark, hparked, bind, StateT.bind, takeCell_empty hcell]
    rfl
  rw [resumeOne_found hg]
  simp only [resumeFound, bind, RunOn.bind, hunpark]
  rfl

theorem park_parked {g : Instance} {p : Parked} (hg : w.instances[id]? = some g)
    (hparked : g.parked = some p) (v : Value) : park id v w = ((), w) := by
  have hfound : Edit.instance? id w = (some g, w) := congrArg (·, w) hg
  simp only [park, bind, StateT.bind, hfound, hparked, Option.isNone_some, Bool.and_false,
    Bool.false_eq_true, if_false]
  rfl

theorem World.Waits.poll_chain (h : w.Waits promise n id) (hnodup : outer.Nodup)
    (hout : ∀ o ∈ outer, w.statusAt? o = some .executing) (v : Value) :
    ∃ w₁, (∀ (host : Host) (k : Nat), n < k →
      resumeChain host k outer id (.next v) w = .done (.awaiting promise) w₁) ∧
      w.Polled outer w₁ := by
  induction n generalizing w id outer with
  | zero =>
    cases h with
    | @here _ g cell hg hparked hcell =>
      obtain ⟨hworld, hsize⟩ := markOuter_world outer Instance.suspend w
      refine ⟨(markOuter outer Instance.suspend w).2, fun host k hk => ?_, hworld.symm, hsize, ?_, ?_⟩
      · obtain ⟨k, rfl⟩ := Nat.exists_eq_add_of_lt hk
        have hpark : (liftM (park id promise) : Run Unit) w = .done () w := by
          show Outcome.done (park id promise w).1 (park id promise w).2 = _
          rw [park_parked hg hparked]
        rw [Nat.zero_add, resumeChain]
        simp only [bind, RunOn.bind, resumeOne_parked host hg hparked hcell v, hpark]
        rfl
      · intro i hi
        rw [markOuter_eq _ hnodup, if_pos hi]
      · intro i hi
        rw [markOuter_eq _ hnodup, if_neg hi]
        exact .inl rfl
  | succ n ih =>
    have hself := h
    cases h with
    | @through _ _ inner g hg hrelays hinner hwait =>
      have hid : id ∉ outer := by
        intro hmem
        have hs := hout id hmem
        rw [World.statusAt?, hg, Option.map_some, hrelays.status] at hs
        cases hs
      have hother {i : InstanceId} (hi : i ≠ id) :
        (w.put id (g.relay .next)).instances[i]? = w.instances[i]? := World.put_other hi.symm
      have hchain : ∀ o ∈ id :: outer,
          (w.put id (g.relay .next)).statusAt? o = some .executing := by
        refine List.forall_mem_cons.2 ⟨?_, fun o ho => ?_⟩
        · rw [World.statusAt?, World.put_self hg, Option.map_some, Instance.relay]
        · rw [World.statusAt?, hother (fun h => hid (h ▸ ho))]
          exact hout o ho
      obtain ⟨w₁, hrun, hpolled⟩ := ih (hwait.put_outer hself (Nat.lt_succ_self n))
        (List.nodup_cons.2 ⟨hid, hnodup⟩) hchain
      refine ⟨w₁, fun host k hk => ?_, hpolled.rest, ?_, fun i hi => ?_, fun i hi => ?_⟩
      · obtain ⟨k, rfl⟩ := Nat.exists_eq_add_of_lt (Nat.zero_lt_of_lt hk)
        obtain ⟨inner', hinner', hone⟩ := resumeFound_relay host hrelays id .next v w
        cases hinner.symm.trans hinner'
        have hone : resumeFound host id g (.next v) w = _ := hone
        rw [Nat.zero_add, resumeChain]
        simp only [bind, RunOn.bind, resumeOne_found hg, hone]
        exact hrun host k (by omega)
      · rw [hpolled.size]
        exact Array.size_setIfInBounds
      · rw [hpolled.chain i (List.mem_cons_of_mem id hi), hother (fun h => hid (h ▸ hi))]
      · by_cases hi' : i = id
        · subst hi'
          refine .inr ⟨g, hg, hrelays, ?_⟩
          rw [hpolled.chain i (by simp), World.put_self hg, Option.map_some]
          exact congrArg some (Instance.suspend_relay hrelays)
        · have hpolled := hpolled.others i (by simp [hi', hi])
          rwa [hother hi'] at hpolled

theorem World.Polled.waits {w' : World} (h : w.Polled [] w') {m : Nat} {i : InstanceId}
    (hwait : w.Waits promise m i) : w'.Waits promise m i := by
  have hcells : w'.cells = w.cells := by rw [← h.rest]
  have hfound {i : InstanceId} {g : Instance} (hg : w.instances[i]? = some g) :
      ∃ g', w'.instances[i]? = some g' ∧ (g' = g ∨ g.Relays ∧ g' = g.forget) := by
    obtain heq | ⟨g₁, hg₁, hrelays, hforget⟩ := h.others i nofun
    · exact ⟨g, heq.trans hg, .inl rfl⟩
    · cases hg.symm.trans hg₁
      exact ⟨_, hforget, .inr ⟨hrelays, rfl⟩⟩
  induction hwait with
  | here hg hparked hcell =>
    obtain ⟨g', hg', rfl | ⟨-, rfl⟩⟩ := hfound hg <;> exact .here hg' hparked (hcells ▸ hcell)
  | through hg hrelays hinner _ ih =>
    obtain ⟨g', hg', rfl | ⟨-, rfl⟩⟩ := hfound hg
    · exact .through hg' hrelays hinner ih
    · exact .through hg' (hrelays.of_forget (Instance.forget_forget _))
        ((Instance.delegate?_forget _).trans hinner) ih

theorem World.Polled.resembles {w' : World} (h : w.Polled [] w') : w.Resembles w' where
  rest := h.rest
  size := h.size
  twin i g g' hg hg' := by
    obtain heq | ⟨g₁, hg₁, hrelays, hforget⟩ := h.others i nofun
    · exact .same (Option.some.inj (hg'.symm.trans (heq.trans hg)))
    · cases hg.symm.trans hg₁
      cases hg'.symm.trans hforget
      exact .relays hrelays (Instance.forget_forget g)

/-- A poll gives the promise again, whatever the host does, and leaves a world like the one before, in
which the generator still waits. -/
theorem World.Waits.poll (h : w.Waits promise n id) (v : Value) :
    ∃ w₁, (∀ host : Host, n < host.fuel → resume host id (.next v) w = .done (.awaiting promise) w₁) ∧
      w.Resembles w₁ ∧ w₁.Waits promise n id := by
  obtain ⟨w₁, hrun, hpolled⟩ := h.poll_chain (List.nodup_nil) nofun v
  exact ⟨w₁, fun host hn => hrun host host.fuel hn, hpolled.resembles, hpolled.waits h⟩

end Polls

def World.asynchronous (w : World) : Set InstanceId :=
  { i | ∀ g : Instance, w.instances[i]? = some g → g.isAsync = true }

theorem World.Hosted.wired {w : World} (hw : w.Hosted) : w.Wired w.asynchronous := by
  obtain ⟨c, hc, -, rfl⟩ := hw.reached
  have hown {i : InstanceId} (h : .own i ∈ c.rights) : i ∈ c.world.asynchronous := by
    obtain ⟨g, hg, hasync⟩ := hc.valid.standing.own i h
    intro g' hg'
    cases hg.symm.trans hg'
    exact hasync
  have hreaction {r : Reaction} (h : ∀ t ∈ r.rights, t ∈ c.rights) : r.Wired c.world.asynchronous := by
    cases r with
    | handlers => trivial
    | resume k =>
      cases k with
      | unpark | asyncGenerator => trivial
      | asyncFunction inst promise =>
        exact hown (h _ (by simp [Reaction.rights, Continuation.rights]))
  refine ⟨fun id a ha => ?_, fun p rs hp r hr => hreaction fun t ht => ?_, fun job hj => ?_⟩
  · obtain ⟨g, hg, hasync, -⟩ := hc.valid.attended.inst id a ha
    intro g' hg'
    cases hg.symm.trans hg'
    exact hasync
  · obtain ⟨o, ho, hrole⟩ := Heap.promise?_eq_some.1 hp
    have hobject : t ∈ gather Object.rights c.world.heap.objects.toList := by
      refine mem_gather.2 ⟨o, ?_, ?_⟩
      · exact List.mem_of_getElem? (i := p) (by rw [Array.getElem?_toList]; exact ho)
      · rw [Object.rights, hrole]
        exact mem_gather.2 ⟨r, hr, ht⟩
    simp only [Config.rights, World.rights, Multiset.mem_add]
    exact .inr (.inl (.inl (.inl hobject)))
  · cases job with
    | adopt => trivial
    | react r s =>
      refine hreaction fun t ht => ?_
      have hjob : t ∈ gather Job.rights c.world.jobs := mem_gather.2 ⟨_, hj, ht⟩
      simp only [Config.rights, World.rights, Multiset.mem_add]
      exact .inr (.inl (.inr hjob))

theorem World.Hosted.alike {w w' : World} (hw : w.Hosted) (h : w.Resembles w') :
    w.Alike w.asynchronous w.asynchronous w' where
  rest := h.rest
  size := h.size
  twin := h.twin
  same i hi := by
    cases hg : w.instances[i]? with
    | none =>
      rw [Array.getElem?_eq_none_iff] at hg ⊢
      rw [h.size]
      exact hg
    | some g =>
      have hlt : i < w'.instances.size := by
        rw [h.size]
        exact (Array.getElem?_eq_some_iff.1 hg).1
      have hg' : w'.instances[i]? = some w'.instances[i] := Array.getElem?_eq_getElem hlt
      cases h.twin i g _ hg hg' with
      | same heq => rw [hg', heq]
      | relays hrelays => cases (hi g hg).symm.trans hrelays.isAsync
  within := subset_rfl
  fresh i hi g hg := by
    rw [Array.getElem?_eq_none_iff.2 hi] at hg
    cases hg
  wired := hw.wired

end Resumable
