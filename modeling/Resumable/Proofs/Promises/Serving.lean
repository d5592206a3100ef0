import Resumable.Proofs.Lifecycle.Programs
import Resumable.Proofs.Promises.Resumption

/-!
Asynchronous functions and generators as sequences of steps. Whoever has the right to serve a generator
resumes its body with one request after the other, and settles the promise of each when there is an
outcome. Main statements: `serve_moves`, `requestNext_moves`, `stepAsyncFunction_moves`.
-/

set_option autoImplicit false

namespace Resumable

section Results

variable {w : World} {p : ObjectId} {v : Value}

theorem property?_alloc {h : Heap} {o : Object} {proto : ObjectId} {key : String} {u : Value}
    (hproto : o.proto = some proto) (hown : o.own? key = none)
    (hu : (h.alloc o).2.property? h.objects.size key = some u) :
    (h.alloc o).2.property? proto key = some u := by
  have hget : (h.alloc o).2.get? h.objects.size = some o := by rw [Heap.get?_alloc, if_pos rfl]
  rw [Heap.property?, Heap.chain, hget, Option.bind_some, hproto] at hu
  dsimp only at hu
  split at hu
  · rwa [List.findSome?_cons, hget, Option.bind_some, hown] at hu
  · rw [List.findSome?_cons, hget, Option.bind_some, hown] at hu
    cases hu

theorem newResult_then (done : Bool)
    (h : (Edit.newResult v done w).2.heap.isPromiseLike (.obj (Edit.newResult v done w).1) = true) :
    (Edit.newResult v done w).2.heap.isCallable
      ((Edit.newResult v done w).2.heap.property
        (.obj (Edit.newResult v done w).2.realm.object) "then") = true := by
  obtain ⟨o, ho⟩ : ∃ o : Object, o = ⟨some w.realm.object,
      (Dict.empty.insert "value" ⟨v, true, true⟩).insert "done" ⟨.bool done, true, true⟩, .ordinary⟩ :=
    ⟨_, rfl⟩
  have hown : o.own? "then" = none := by
    rw [ho]
    simp [Object.own?, Object.elements?]
  have hout : Edit.newResult v done w =
      ((w.heap.alloc o).1, { w with heap := (w.heap.alloc o).2 }) := by
    rw [ho]
    rfl
  rw [hout] at h ⊢
  obtain ⟨-, h⟩ := Bool.and_eq_true_iff.1 h
  have h : (w.heap.alloc o).2.isCallable
      (((w.heap.alloc o).2.property? w.heap.objects.size "then").getD .undefined) = true := h
  show (w.heap.alloc o).2.isCallable
    (((w.heap.alloc o).2.property? w.realm.object "then").getD .undefined) = true
  cases hu : (w.heap.alloc o).2.property? w.heap.objects.size "then" with
  | none =>
    rw [hu] at h
    cases h
  | some u =>
    rw [hu] at h
    rw [property?_alloc (by rw [ho]) hown hu]
    exact h

theorem newResult_promise? (done : Bool) :
    (Edit.newResult v done w).2.heap.promise? (.obj (Edit.newResult v done w).1) = none :=
  Heap.promise?_alloc.trans (if_pos rfl)

theorem resolve_plain (hp : v.object? ≠ some p) (hv : w.heap.isPromiseLike v = false) :
    Promise.resolve p v w = Promise.settle p (.fulfilled v) w := by
  have hheap : Edit.heap w = (w.heap, w) := rfl
  simp only [Promise.resolve, if_neg hp, bind, StateT.bind, hheap, hv, Bool.false_eq_true, if_false]

end Results

section Heads

variable {c : Config} {H : Multiset Right} {id : AsyncGeneratorId}

theorem modifyAsyncGenerator_congr {w : World} {a : AsyncGenerator}
    {f f' : AsyncGenerator → AsyncGenerator} (ha : w.asyncGenerators[id]? = some a) (h : f a = f' a) :
    Edit.modifyAsyncGenerator id f w = Edit.modifyAsyncGenerator id f' w := by
  have hmodify : w.asyncGenerators.modify id f = w.asyncGenerators.modify id f' := by
    refine Array.ext_getElem? fun i => ?_
    rw [Array.getElem?_modify, Array.getElem?_modify]
    by_cases hi : id = i
    · subst hi
      rw [if_pos rfl, if_pos rfl, ha, Option.map_some, Option.map_some, h]
    · rw [if_neg hi, if_neg hi]
  show ((), { w with asyncGenerators := w.asyncGenerators.modify id f }) = _
  rw [hmodify]
  rfl

theorem modifyAsyncGenerator_twice {w : World} {f f' : AsyncGenerator → AsyncGenerator} :
    Edit.modifyAsyncGenerator id f' (Edit.modifyAsyncGenerator id f w).2 =
      Edit.modifyAsyncGenerator id (fun a => f' (f a)) w := by
  have hmodify : (w.asyncGenerators.modify id f).modify id f' =
      w.asyncGenerators.modify id fun a => f' (f a) := by
    refine Array.ext_getElem? fun i => ?_
    rw [Array.getElem?_modify, Array.getElem?_modify, Array.getElem?_modify]
    split
    · exact Option.map_map _ _ _
    · rfl
  show ((), { w with asyncGenerators := (w.asyncGenerators.modify id f).modify id f' }) = _
  rw [hmodify]
  rfl

theorem modifyAsyncGenerator_self {w : World} {a : AsyncGenerator}
    {f : AsyncGenerator → AsyncGenerator} (ha : w.asyncGenerators[id]? = some a) (h : f a = a) :
    Edit.modifyAsyncGenerator id f w = ((), w) := by
  have hmodify : w.asyncGenerators.modify id f = w.asyncGenerators := by
    refine Array.ext_getElem? fun i => ?_
    rw [Array.getElem?_modify]
    split
    · rename_i hi
      rw [← hi, ha, Option.map_some, h]
    · rfl
  show ((), { w with asyncGenerators := w.asyncGenerators.modify id f }) = _
  rw [hmodify]

theorem Config.Reached.head (hc : c.Reached) {a : AsyncGenerator} {r : Request} {rest : List Request}
    (ha : c.world.asyncGenerators[id]? = some a) (hq : a.queue = r :: rest)
    (hserving : .serving id ∈ c.held) :
    pick id c.log.delivered = pick id c.log.answered ++ [r] := by
  rw [hc.valid.served.delivered id, if_pos (Config.mem_rights hserving), queueOf, ha, Option.map_some,
    hq]
  rfl

/-- The request at the head is answered: its promise is settled, unless the outcome is a value with a
method `then`, which can only come from the prototype of all objects. -/
theorem settleHead_moves {a : AsyncGenerator} {r : Request} {rest : List Request} (s : Settlement)
    (hc : c.Reached) (hH : c.held = .serving id ::ₘ H) (ha : c.world.asyncGenerators[id]? = some a)
    (hq : a.queue = r :: rest) (hrests : c.world.Rests id)
    (hs : ∀ v, s = .fulfilled v → c.world.heap.promise? v = none ∧
      (c.world.heap.isPromiseLike v = true →
        c.world.heap.isCallable (c.world.heap.property (.obj c.world.realm.object) "then") = true)) :
    (moving H false).Gives c (Run.edit (AsyncGenerator.settleHead id s)) fun _ c' =>
      c'.held = .ready id ::ₘ H ∧ c'.log.answered = c.log.answered ++ [(id, r)] := by
  have hle := le_of_held_cons hH
  have hr : .settle r.promise ∈ c.rights :=
    Multiset.mem_add.2 (.inr (request_mem_rights ha (by rw [hq]; exact List.mem_cons_self)))
  obtain ⟨rs, hpending⟩ := hc.valid.standing.settle r.promise hr
  have hdrop : Edit.modifyAsyncGenerator id (fun a => { a with queue := rest }) c.world =
      Edit.dropRequest id c.world :=
    modifyAsyncGenerator_congr ha (by rw [hq]; rfl)
  refine .edit_bind (look_moves (a := some a) hc hle (congrArg (·, c.world) ha)) ?_
  rintro _ _ - ⟨rfl, rfl⟩
  simp only [Option.map_some, hq]
  obtain ⟨w, held, L⟩ := c
  obtain rfl : held = _ := hH
  -- the promise is settled at once
  have hanswer {x : Edit Unit} (hx : x (Edit.dropRequest id w).2 =
      Promise.settle r.promise s (Edit.dropRequest id w).2) :
      (moving H false).Gives ⟨w, .serving id ::ₘ H, L⟩ (Run.edit (do
        Edit.modifyAsyncGenerator id fun a => { a with queue := rest }
        x)) fun _ c' => c'.held = .ready id ::ₘ H ∧ c'.log.answered = L.answered ++ [(id, r)] := by
    refine moves_step hc hle (.answer s ha hq hrests hpending) (Multiset.le_cons_self _ _) nofun ?_
      ⟨rfl, rfl⟩
    show (Promise.settle r.promise s (Edit.dropRequest id w).2).2 =
      (x (Edit.modifyAsyncGenerator id (fun a => { a with queue := rest }) w).2).2
    rw [hdrop, hx]
  cases s with
  | rejected v => exact hanswer rfl
  | fulfilled v =>
    obtain ⟨hnone, hthen⟩ := hs v rfl
    cases hlike : w.heap.isPromiseLike v with
    | false =>
      refine hanswer (resolve_plain (fun hobject => ?_) hlike)
      cases v with
      | obj q =>
        cases hobject
        cases hnone.symm.trans hpending
      | _ => cases hobject
    | true =>
      have hkept : H ≤ .ready id ::ₘ .settle r.promise ::ₘ H :=
        (Multiset.le_cons_self _ _).trans (Multiset.le_cons_self _ _)
      refine .edit_bind (P := fun _ (c' : Config) => c'.held = .settle r.promise ::ₘ .ready id ::ₘ H ∧
        c'.log.answered = L.answered ++ [(id, r)])
        (moves_step hc hle (.entrust ha hq hrests (hthen hlike)) hkept nofun ?_
          ⟨Multiset.cons_swap _ _ _, rfl⟩) ?_
      · exact congrArg Prod.snd hdrop.symm
      · rintro - c₁ h₁ ⟨hheld, hanswered⟩
        refine (moves_of_quiet (moves_mono (resolve_moves v (reached_of_moves h₁) hheld)
          (Multiset.le_cons_self _ _))).mono fun _ c₂ _ h₂ => ⟨h₂.1, ?_⟩
        exact h₂.2.answered.trans hanswered

theorem Heap.generator_of_asyncGenerator? {v : Value} (hc : c.Reached)
    (h : c.world.heap.asyncGenerator? v = some id) :
    ∃ a : AsyncGenerator, c.world.asyncGenerators[id]? = some a := by
  unfold Heap.asyncGenerator? at h
  split at h
  · rename_i hrole
    cases h
    obtain ⟨o, ho, hr⟩ := Option.map_eq_some_iff.1 hrole
    obtain ⟨q, -, ho⟩ := Option.bind_eq_some_iff.1 ho
    have hsound := hc.valid.sound q o ho
    rw [hr] at hsound
    exact ⟨_, Array.getElem?_eq_getElem hsound⟩
  · cases h

/-- It makes no difference to a generator that has a request whether it is marked as running. -/
theorem drain_running {host : Host} {w : World} {a : AsyncGenerator} (n : Nat)
    (ha : w.asyncGenerators[id]? = some a) (hq : a.queue ≠ []) :
    AsyncGenerator.drain host id n w = AsyncGenerator.drain host id n
      (Edit.modifyAsyncGenerator id (fun a => { a with running := true }) w).2 := by
  obtain ⟨r, rest, hq⟩ := List.exists_cons_of_ne_nil hq
  have hget : (Edit.modifyAsyncGenerator id (fun a => { a with running := true })
      w).2.asyncGenerators[id]? = some { a with running := true } :=
    (Array.getElem?_modify.trans (if_pos rfl)).trans (congrArg (Option.map _) ha)
  have hstep {w : World} {a : AsyncGenerator} (n : Nat) (ha : w.asyncGenerators[id]? = some a)
      (hq : a.queue = r :: rest) : AsyncGenerator.drain host id (n + 1) w = (do
        if ← AsyncGenerator.serve host id a.inst r.action then AsyncGenerator.drain host id n : Run Unit)
        (Edit.modifyAsyncGenerator id (fun a => { a with running := true }) w).2 := by
    have hfound : (liftM (Edit.asyncGenerator? id) : Run _) w = .done (some a) w :=
      congrArg (fun o => Outcome.done o w) ha
    rw [AsyncGenerator.drain]
    simp only [bind, RunOn.bind, hfound, hq]
    rfl
  cases n with
  | zero => rfl
  | succ n =>
    rw [hstep n ha hq, hstep n hget hq, modifyAsyncGenerator_self hget rfl]

end Heads

section Serving

variable {host : Host} {c : Config} {H : Multiset Right} {id : AsyncGeneratorId}
  (hs : host.Steady) (hh : tracking.Hosts host)

include hs hh

/-- Whoever serves a generator resumes its body; when there is an outcome, that is the answer to the
request at the head and the next one can be served, else the body goes on when what it awaits has
settled. -/
theorem serve_moves {a : AsyncGenerator} {r : Request} {rest : List Request} {b : Action}
    (hc : c.Reached) (hH : c.held = .serving id ::ₘ H) (ha : c.world.asyncGenerators[id]? = some a)
    (hq : a.queue = r :: rest) (hhalts : c.world.Halts id) (hb : b.endsDelegate = false) :
    (moving H false).Gives c (AsyncGenerator.serve host id a.inst b) fun more c' =>
      c'.held = (if more then .ready id ::ₘ H else H) ∧
      pick id c'.log.answered = pick id c.log.answered ++ if more then [r] else [] := by
  have hle := le_of_held_cons hH
  have hserving := mem_of_held_cons hH
  have hrun : c.MayRun a.inst := .inr ⟨id, a, hserving, ha, rfl⟩
  have hidle : c.world.statusAt? a.inst ≠ some .executing := by
    intro he
    obtain ⟨g, hg, he⟩ := Option.map_eq_some_iff.1 he
    exact hhalts a g ha hg he
  have hresume := (resumeAsync_gives hs hh hc hb hrun).and
    (resume_yields hs (.of_call (.of_orderly hc.orderly) hb))
  refine .bind (moves_mono (moves_kept hresume) hle) ?_
  rintro s c₁ h₁ ⟨hheld, ⟨hhalted, hkept, -⟩, hkeeps⟩
  have hc₁ := reached_of_moves h₁
  have hH₁ : c₁.held = .serving id ::ₘ H := hheld.trans hH
  -- meanwhile the generator may have got other requests, but none was answered
  obtain ⟨hdelivered, hanswered⟩ := hkeeps.serves hc (.inr rfl) hserving (le_refl _)
  obtain ⟨a₁, ha₁, hinst⟩ := hkeeps.later.onward.generators id a ha
  obtain ⟨more, hq₁⟩ : ∃ more, a₁.queue = r :: more := by
    have hhead := hc.head ha hq hserving
    have hhead₁ := hc₁.valid.served.delivered id
    rw [if_pos (Config.mem_rights (mem_of_held_cons hH₁)), hdelivered, hhead, hanswered, queueOf, ha₁]
      at hhead₁
    have htake : [r] = a₁.queue.take 1 := List.append_cancel_left hhead₁
    cases hq₁ : a₁.queue with
    | nil =>
      rw [hq₁] at htake
      cases htake
    | cons r' more =>
      rw [hq₁] at htake
      cases htake
      exact ⟨more, rfl⟩
  have hhalts₁ : c₁.world.Halts id := by
    intro a' g ha' hg he
    cases ha₁.symm.trans ha'
    rw [hinst] at hg
    exact hhalts a g ha (hkept.back a.inst g hg he) he
  have hrests (hawait : ∀ g : Instance, c₁.world.instances[a.inst]? = some g → g.isAsync = true →
      g.awaiting = none) : c₁.world.Rests id := by
    intro a' g ha' hg
    refine ⟨hhalts₁ a' g ha' hg, ?_⟩
    cases ha₁.symm.trans ha'
    obtain ⟨g', hg', hasync, -⟩ := hc₁.valid.attended.inst id a₁ ha₁
    cases hg.symm.trans hg'
    exact hawait g (hinst ▸ hg) hasync
  -- an outcome that is made in the world is the answer to the request at the head
  have hsettle (x : Edit Settlement) (hcalm : x.IsCalm) (hrests : c₁.world.Rests id)
      (hx : ∀ v, (x c₁.world).1 = .fulfilled v → (x c₁.world).2.heap.promise? v = none ∧
        ((x c₁.world).2.heap.isPromiseLike v = true → (x c₁.world).2.heap.isCallable
          ((x c₁.world).2.heap.property (.obj (x c₁.world).2.realm.object) "then") = true)) :
      (moving H false).Gives c₁ (do
        AsyncGenerator.settleHead id (← x)
        return true : Run Bool) fun more c' => c'.held = (if more then .ready id ::ₘ H else H) ∧
          pick id c'.log.answered = pick id c.log.answered ++ if more then [r] else [] := by
    refine .bind (P := fun s (c' : Config) => s = (x c₁.world).1 ∧
      c' = ⟨(x c₁.world).2, c₁.held, c₁.log⟩) ((moves_mono (tracking_gives_iff.1
        (calm_gives hc₁ hcalm)) (le_of_held_cons hH₁)).mono fun _ _ _ h => h.2) ?_
    rintro _ _ h₂ ⟨rfl, rfl⟩
    have ha₂ : (x c₁.world).2.asyncGenerators[id]? = some a₁ := by
      rw [(hcalm c₁.world).asyncGenerators]
      exact ha₁
    have hrests₂ : (x c₁.world).2.Rests id := by
      intro a' g ha' hg
      rw [(hcalm c₁.world).asyncGenerators] at ha'
      rw [(hcalm c₁.world).instances] at hg
      exact hrests a' g ha' hg
    refine .bind (settleHead_moves _ (reached_of_moves h₂) hH₁ ha₂ hq₁ hrests₂ hx) ?_
    rintro - c₃ h₃ ⟨hheld₃, hanswered₃⟩
    refine .pure ((moving _ _).good h₃) ⟨hheld₃, ?_⟩
    rw [hanswered₃, pick_append, pick_self, hanswered]
    rfl
  cases s with
  | awaiting v =>
    refine .bind (moves_of_quiet (await_moves (k := .asyncGenerator id) v hc₁ hH₁ fun id' hid' => ?_)) ?_
    · cases Multiset.mem_singleton.1 hid'
      exact hhalts₁
    · rintro - c₂ h₂ ⟨hheld₂, hsame⟩
      refine .pure ((moving _ _).good h₂) ⟨hheld₂, ?_⟩
      rw [hsame.answered, hanswered]
      exact (List.append_nil _).symm
  | yielded v =>
    refine hsettle (do return .fulfilled (.obj (← Edit.newResult v false)))
      (.bind (newResult_calm v false) fun _ => .pure _) (hrests (hhalted hidle)) fun u hu => ?_
    cases hu
    exact ⟨newResult_promise? false, newResult_then false⟩
  | returned v =>
    refine hsettle (do return .fulfilled (.obj (← Edit.newResult v true)))
      (.bind (newResult_calm v true) fun _ => .pure _) (hrests (hhalted hidle)) fun u hu => ?_
    cases hu
    exact ⟨newResult_promise? true, newResult_then true⟩
  | threw v => exact hsettle (return .rejected v) (.pure _) (hrests (hhalted hidle)) (by rintro _ ⟨⟩)
  | failed e =>
    exact hsettle (do return .rejected (← newFailure e))
      (.bind (.bind (newError_calm _ _) fun _ => .pure _) fun _ => .pure _)
      (hrests (hhalted hidle)) (by rintro _ ⟨⟩)

theorem drain_moves (n : Nat) (hc : c.Reached) (hH : c.held = .ready id ::ₘ H) :
    (moving H false).Gives c (AsyncGenerator.drain host id n) fun _ c' => c'.held = H := by
  induction n generalizing c with
  | zero => exact .exhausted
  | succ n ih =>
    have hle := le_of_held_cons hH
    have hready : .ready id ∈ c.rights := Config.mem_rights (mem_of_held_cons hH)
    obtain ⟨a, ha, hrunning⟩ := hc.valid.standing.ready id hready
    have hserving : .serving id ∉ c.rights := fun h => (hc.valid.standing.serving id h).1 hready
    refine .bind (look_moves (a := some a) hc hle (congrArg (·, c.world) ha)) ?_
    rintro _ _ - ⟨rfl, rfl⟩
    cases hq : a.queue with
    | nil =>
      simp only [hq]
      obtain ⟨w, held, L⟩ := c
      obtain rfl : held = _ := hH
      exact moves_step hc hle (.idle ha hq) (le_refl H) nofun rfl rfl
    | cons r rest =>
      simp only [hq]
      -- the generator is marked as running already
      refine .bind (look_moves (a := ()) hc hle (modifyAsyncGenerator_self ha (by rw [← hrunning]))) ?_
      rintro - _ - ⟨-, rfl⟩
      have hhalts : c.world.Halts id := by
        intro a' g ha' hg
        cases ha.symm.trans ha'
        obtain ⟨g', hg', -, hexec, -⟩ := hc.valid.attended.inst id a ha
        cases hg.symm.trans hg'
        exact hexec fun h => hserving (Config.mem_rights h)
      have hr := hc.valid.attended.requests id a ha r (by rw [hq]; exact List.mem_cons_self)
      obtain ⟨w, held, L⟩ := c
      obtain rfl : held = _ := hH
      have hdeliver := Step.deliver (H := H) (L := L) ha hq
      refine moves_after hc hle hdeliver (Multiset.le_cons_self _ _) rfl ?_
      refine .bind (serve_moves hs hh (hc.step hdeliver) rfl ha hq hhalts hr) ?_
      rintro more c₁ h₁ ⟨hheld, -⟩
      cases more with
      | true => exact ih (reached_of_moves h₁) hheld
      | false => exact .pure ((moving _ _).good h₁) hheld

theorem queueRequest_moves {a : AsyncGenerator} {r : Request} (v : Value) (hc : c.Reached)
    (hH : c.held = .settle r.promise ::ₘ H) (ha : c.world.asyncGenerators[id]? = some a)
    (hr : r.action.endsDelegate = false) :
    (moving H false).Gives c (do
      Edit.modifyAsyncGenerator id fun a => { a with queue := a.queue ++ [r] }
      if !((← Edit.asyncGenerator? id).any AsyncGenerator.running) then
        AsyncGenerator.drain host id host.fuel
      return v : Run Value) fun _ c' => c'.held = H := by
  have hle := le_of_held_cons hH
  obtain ⟨w, held, L⟩ := c
  obtain rfl : held = _ := hH
  have ha : w.asyncGenerators[id]? = some a := ha
  have hrequest := Step.request (H := H) (L := L) r ha hr
  have hget : (Edit.modifyAsyncGenerator id (fun a => { a with queue := a.queue ++ [r] })
      w).2.asyncGenerators[id]? = some { a with queue := a.queue ++ [r] } :=
    (Array.getElem?_modify.trans (if_pos rfl)).trans (congrArg (Option.map _) ha)
  obtain ⟨w₁, hw₁⟩ : ∃ w₁, (Edit.modifyAsyncGenerator id (fun a => { a with queue := a.queue ++ [r] })
    w).2 = w₁ := ⟨_, rfl⟩
  rw [hw₁] at hget
  have hfound : (liftM (Edit.asyncGenerator? id) : Run _) w₁ =
      .done (some { a with queue := a.queue ++ [r] }) w₁ :=
    congrArg (fun o => Outcome.done o w₁) hget
  have hqueued : (liftM (Edit.modifyAsyncGenerator id fun a => { a with queue := a.queue ++ [r] }) :
      Run Unit) w = .done () w₁ := congrArg (Outcome.done ()) hw₁
  cases hrunning : a.running with
  | true =>
    rw [hrunning] at hrequest
    have hsame : w₁ = (Edit.request id r w).2 := by
      rw [← hw₁]
      exact congrArg Prod.snd (modifyAsyncGenerator_congr ha (by rw [hrunning]))
    refine moves_after (x := Pure.pure v) hc hle hrequest (zero_add H).ge ?_
      (.pure ⟨hc.step hrequest, (zero_add H).ge⟩ (zero_add _))
    simp only [bind, RunOn.bind, hqueued, hfound, Option.any_some, hrunning]
    rw [hsame]
    rfl
  | false =>
    rw [hrunning] at hrequest
    have hrun : (Edit.modifyAsyncGenerator id (fun a => { a with running := true }) w₁).2 =
        (Edit.request id r w).2 := by
      rw [← hw₁]
      exact congrArg Prod.snd modifyAsyncGenerator_twice
    refine moves_after (x := AsyncGenerator.drain host id host.fuel >>= fun _ => Pure.pure v) hc hle
      hrequest (Multiset.le_add_left _ _) ?_ ?_
    · simp only [bind, RunOn.bind, hqueued, hfound, Option.any_some, hrunning]
      rw [← hrun, ← drain_running _ hget (by simp)]
      rfl
    · refine .bind (drain_moves hs hh _ (hc.step hrequest) ?_) fun _ c₁ h₁ hheld =>
        .pure ((moving _ _).good h₁) hheld
      exact Multiset.singleton_add _ _

/-- To ask a generator for something uses no right. If it is idle, whoever asks serves it. -/
theorem requestNext_moves (receiver : Value) (m : Method) (v : Value) (hc : c.Reached) :
    (moving c.held false).Gives c (requestNext host receiver m v) fun _ c' => c'.held = c.held := by
  refine .bind (newPromise_moves hc) fun p c₁ h₁ hheld => ?_
  have hc₁ := reached_of_moves h₁
  refine .read ?_
  cases hid : ((moving c.held false).world c₁).heap.asyncGenerator? receiver with
  | none =>
    refine .bind (P := fun _ (c' : Config) => c'.held = c₁.held)
      (moves_calm hc₁ (le_of_held_cons hheld) (newError_calm _ _) fun _ _ => rfl)
      fun e c₂ h₂ hheld₂ => ?_
    exact .bind (settle_moves _ (reached_of_moves h₂) (hheld₂.trans hheld)) fun _ c₃ h₃ hheld₃ =>
      .pure ((moving _ _).good h₃) hheld₃
  | some id =>
    obtain ⟨a, ha⟩ := Heap.generator_of_asyncGenerator? hc₁ hid
    exact queueRequest_moves hs hh (r := ⟨.ofMethod m v, p⟩) (.obj p) hc₁ hheld ha
      (by cases m <;> rfl)

theorem goOn_moves (s : Settlement) (hc : c.Reached) (hH : c.held = .serving id ::ₘ H)
    (hhalts : c.world.Halts id) :
    (moving H false).Gives c (AsyncGenerator.goOn host id s) fun _ c' => c'.held = H := by
  have hle := le_of_held_cons hH
  obtain ⟨-, a, ha, -, hq⟩ :=
    hc.valid.standing.serving id (Config.mem_rights (mem_of_held_cons hH))
  obtain ⟨r, rest, hq⟩ := List.exists_cons_of_ne_nil hq
  refine .bind (look_moves (a := some a) hc hle (congrArg (·, c.world) ha)) ?_
  rintro _ _ - ⟨rfl, rfl⟩
  refine .bind (serve_moves hs hh hc hH ha hq hhalts rfl) ?_
  rintro more c₁ h₁ ⟨hheld, -⟩
  cases more with
  | true => exact drain_moves hs hh _ (reached_of_moves h₁) hheld
  | false => exact .pure ((moving _ _).good h₁) hheld

/-- Whoever resumes an asynchronous function settles its promise at its end. -/
theorem stepAsyncFunction_moves {i : InstanceId} {p : ObjectId} {b : Action} (hc : c.Reached)
    (hH : c.held = .own i ::ₘ .settle p ::ₘ H) (hb : b.endsDelegate = false) :
    (moving H false).Gives c (stepAsyncFunction host i p b) fun _ c' => c'.held = H := by
  have hle : H ≤ c.held := (Multiset.le_cons_self _ _).trans (le_of_held_cons hH)
  have hrun : c.MayRun i := .inl (mem_of_held_cons hH)
  refine .bind (moves_mono (tracking_gives_iff.1 (resumeAsync_gives hs hh hc hb hrun)) hle) ?_
  rintro s c₁ h₁ ⟨hheld, -⟩
  have hc₁ := reached_of_moves h₁
  have hH₁ : c₁.held = .own i ::ₘ .settle p ::ₘ H := hheld.trans hH
  -- at its end nobody resumes it any more
  have hend {x : Run Unit} (hx : ∀ c : Config, c.Reached → c.held = .settle p ::ₘ H →
      (moving H false).Gives c x fun _ c' => c'.held = H) :
      (moving H false).Gives c₁ x fun _ c' => c'.held = H := by
    have hle₁ : H ≤ c₁.held := (Multiset.le_cons_self _ _).trans (le_of_held_cons hH₁)
    obtain ⟨w, held, L⟩ := c₁
    obtain rfl : held = _ := hH₁
    exact moves_after hc₁ hle₁ (.retire i) (Multiset.le_cons_self _ _) rfl
      (hx _ (hc₁.step (.retire i)) rfl)
  have hreject (x : Edit Value) (hx : x.IsCalm) : (moving H false).Gives c₁ (do
      Promise.reject p (← x) : Run Unit) fun _ c' => c'.held = H := by
    refine hend fun c hc hH => .bind (P := fun _ (c' : Config) => c'.held = c.held)
      (moves_calm hc (le_of_held_cons hH) hx fun _ _ => rfl) fun v c₂ h₂ hheld₂ => ?_
    exact settle_moves _ (reached_of_moves h₂) (hheld₂.trans hH)
  cases s with
  | awaiting v =>
    refine await_moves (k := .asyncFunction i p) v hc₁ ?_ fun id hid => ?_
    · simp [hH₁, Continuation.rights]
    · simp [Continuation.rights] at hid
  | returned v => exact hend fun c hc hH => resolve_moves v hc hH
  | threw v => exact hend fun c hc hH => settle_moves _ hc hH
  | yielded v =>
    exact hreject (do return .obj (← Edit.newError .syntaxError
      "yield is only valid in generator bodies")) (.bind (newError_calm _ _) fun _ => .pure _)
  | failed e => exact hreject (newFailure e) (.bind (newError_calm _ _) fun _ => .pure _)

theorem startAsyncFunction_moves {i : InstanceId} (hc : c.Reached) (hH : c.held = .own i ::ₘ H) :
    (moving H false).Gives c (startAsyncFunction host i) fun _ c' => c'.held = H := by
  refine .bind (moves_mono (newPromise_moves hc) (le_of_held_cons hH)) fun p c₁ h₁ hheld => ?_
  have hH₁ : c₁.held = .own i ::ₘ .settle p ::ₘ H := by
    rw [hheld, hH]
    exact Multiset.cons_swap _ _ _
  exact .bind (stepAsyncFunction_moves hs hh (reached_of_moves h₁) hH₁ rfl) fun _ c₂ h₂ hheld₂ =>
    .pure ((moving _ _).good h₂) hheld₂

end Serving

end Resumable
