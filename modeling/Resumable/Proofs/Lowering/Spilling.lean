import Resumable.Proofs.Lowering.Staging
import Resumable.Proofs.Refinement.Dialogue

/-!
Effects in the place of a first stage. One run has gone through the first stage of an expression and
has values at hand; another has evaluated effects and has these values in slots. `Awaits` says that
what is left in both comes to the same end, whenever it is run. `Settles` says that effects come to the
same end as a run, in a state that suits its value, and is put together as the effects are, one after
the other.
-/

set_option autoImplicit false

namespace Resumable

def evalAll {σ : Type} [HasWorld σ] (host : HostOn σ) (scope : ScopeId) : List Expr → RunOn σ Unit
  | [] => return ()
  | e :: es => do
    let _ ← e.eval host scope none
    evalAll host scope es

section Effects

variable {σ α : Type} [HasWorld σ] (host : HostOn σ) (scope : ScopeId)

theorem evalAll_append (es ds : List Expr) :
    evalAll host scope (es ++ ds) = evalAll host scope es >>= fun _ => evalAll host scope ds := by
  induction es with
  | nil => rfl
  | cons e es ih => simp [evalAll, ih]

theorem evalAll_singleton (e : Expr) :
    evalAll host scope [e] = e.eval host scope none >>= fun _ => pure () := rfl

end Effects

section Peeling

variable {α β : Type} {x : RunOn Dialogue α} {f : α → RunOn Dialogue β} {s t : Dialogue}

theorem bind_eq_of_done {a : α} (h : x s = .done a t) : (x >>= f) s = f a t := by
  simp only [Bind.bind, RunOn.bind, h]

theorem bind_eq_of_abrupt {c : Abrupt} (h : x s = .abrupt c t) : (x >>= f) s = .abrupt c t := by
  simp only [Bind.bind, RunOn.bind, h]

theorem bind_eq_of_exhausted (h : x s = .exhausted) : (x >>= f) s = .exhausted := by
  simp only [Bind.bind, RunOn.bind, h]

end Peeling

/-- Only an anonymous function takes a name from its place. -/
theorem eval_hint {σ : Type} [HasWorld σ] (host : HostOn σ) (scope : ScopeId) {e : Expr}
    (h : e.look ≠ .anonymous) (hint : Option String) :
    e.eval host scope hint = e.eval host scope none := by
  cases e with
  | function name f =>
    cases name with
    | none => exact absurd rfl h
    | some => rfl
  | arrow | lambda => exact absurd rfl h
  | yield e | yieldStar e => cases e <;> rfl
  | update op first target => cases target <;> rfl
  | assign op target value => cases op <;> cases target <;> rfl
  | call f args => cases f <;> rfl
  | typeof e => cases e <;> rfl
  | _ => rfl

namespace Private

variable {α β : Type} {p : Private}

/-- Whether two outcomes come to the same, but for the slots and for the name under which a callee is
refused. -/
inductive Agrees (p : Private) : Outcome Dialogue α → Outcome Dialogue α → Prop where
  | done {a : α} {t t' : Dialogue} : p.Alike t t' → p.Agrees (.done a t) (.done a t')
  | abrupt {c : Abrupt} {t t' : Dialogue} : p.Alike t t' → p.Agrees (.abrupt c t) (.abrupt c t')
  | exhausted : p.Agrees .exhausted .exhausted
  | notFunction (callee other : Expr) {t t' : Dialogue} : p.Alike t t' →
    p.Agrees (Run.throwType (callee.callName ++ " is not a function") t)
      (Run.throwType (other.callName ++ " is not a function") t')
  | notConstructor (callee other : Expr) {t t' : Dialogue} : p.Alike t t' →
    p.Agrees (Run.throwType (callee.callName ++ " is not a constructor") t)
      (Run.throwType (other.callName ++ " is not a constructor") t')

namespace Agrees

variable {x y : RunOn Dialogue α} {s s' t' : Dialogue}

theorem bind {f g : α → RunOn Dialogue β} (hx : p.Agrees (x s) (y s'))
    (hf : ∀ a t t', p.Alike t t' → y s' = .done a t' → p.Agrees (f a t) (g a t')) :
    p.Agrees ((x >>= f) s) ((y >>= g) s') := by
  simp only [Bind.bind, RunOn.bind]
  generalize x s = r at hx
  generalize y s' = r' at hx hf
  cases hx with
  | done ht => exact hf _ _ _ ht rfl
  | abrupt ht => exact .abrupt ht
  | exhausted => exact .exhausted
  | notFunction c c' ht => exact .notFunction c c' ht
  | notConstructor c c' ht => exact .notConstructor c c' ht

theorem abrupt_bind {c : Abrupt} {f : α → RunOn Dialogue β} (hx : p.Agrees (x s) (.abrupt c t')) :
    p.Agrees ((x >>= f) s) (.abrupt c t') := by
  simp only [Bind.bind, RunOn.bind]
  generalize x s = r at hx
  generalize hr' : Outcome.abrupt c t' = r' at hx
  cases hx with
  | done | exhausted => cases hr'
  | abrupt ht =>
    cases hr'
    exact .abrupt ht
  | notFunction d d' ht =>
    cases hr'
    exact .notFunction d d' ht
  | notConstructor d d' ht =>
    cases hr'
    exact .notConstructor d d' ht

theorem eq_done {r : Outcome Dialogue α} {a : α} (h : p.Agrees r (.done a t')) :
    ∃ t, r = .done a t ∧ p.Alike t t' := by
  generalize hr' : Outcome.done a t' = r' at h
  cases h with
  | done ht =>
    cases hr'
    exact ⟨_, rfl, ht⟩
  | abrupt | exhausted | notFunction | notConstructor => cases hr'

theorem eq_exhausted {r : Outcome Dialogue α} (h : p.Agrees r .exhausted) : r = .exhausted := by
  generalize hr' : (Outcome.exhausted : Outcome Dialogue α) = r' at h
  cases h with
  | exhausted => rfl
  | done | abrupt | notFunction | notConstructor => cases hr'

end Agrees

/-- Whether outcomes agree and the second, if nothing is abrupt, leaves the slots as they were. -/
structure Matches (p : Private) (s' : Dialogue) (r r' : Outcome Dialogue α) : Prop where
  agrees : p.Agrees r r'
  kept : ∀ a t', r' = .done a t' → p.KeptIn [] s' t'

theorem Matches.bind {x y : RunOn Dialogue α} {f g : α → RunOn Dialogue β} {s s' : Dialogue}
    (hx : p.Matches s' (x s) (y s'))
    (hf : ∀ a t t', p.Alike t t' → p.KeptIn [] s' t' → p.Matches t' (f a t) (g a t')) :
    p.Matches s' ((x >>= f) s) ((y >>= g) s') := by
  refine ⟨hx.agrees.bind fun a t t' ht hy => (hf a t t' ht (hx.kept a t' hy)).agrees, ?_⟩
  intro b u' hu
  cases hy : y s' with
  | done a t' =>
    rw [hy] at hx
    obtain ⟨t, -, ht⟩ := hx.agrees.eq_done
    have hkept := hx.kept a t' rfl
    exact Kept.trans hkept ((hf a t t' ht hkept).kept b u' ((bind_eq_of_done hy).symm.trans hu))
  | abrupt c t' => cases (bind_eq_of_abrupt hy).symm.trans hu
  | exhausted => cases (bind_eq_of_exhausted hy).symm.trans hu

/-- Whether runs from dialogues that are alike come to the same end. -/
def Follows (p : Private) (x y : RunOn Dialogue α) : Prop :=
  ∀ s s', p.Alike s s' → p.Matches s' (x s) (y s')

theorem Unseen.follows {x y : RunOn Dialogue α} (h : p.Unseen x y) : p.Follows x y := by
  intro s s' hs
  have hxy := h s s' hs
  generalize x s = r at hxy
  generalize y s' = r' at hxy
  cases hxy with
  | done ht hk =>
    refine ⟨.done ht, ?_⟩
    rintro _ _ ⟨⟩
    exact hk
  | abrupt ht _ => exact ⟨.abrupt ht, nofun⟩
  | exhausted => exact ⟨.exhausted, nofun⟩

theorem Follows.bind {x y : RunOn Dialogue α} {f g : α → RunOn Dialogue β} (hx : p.Follows x y)
    (hf : ∀ a, p.Follows (f a) (g a)) : p.Follows (x >>= f) (y >>= g) :=
  fun s s' hs => (hx s s' hs).bind fun a t t' ht _ => hf a t t' ht

/-- Whether some slots have in one dialogue the values that they have in another. -/
def Same (p : Private) (slots : List String) (s t : Dialogue) : Prop :=
  ∀ name ∈ slots, name ∈ p.names →
    t.world.scopes.lookup p.scope name = s.world.scopes.lookup p.scope name

theorem KeptIn.same {slots except : List String} {s t : Dialogue} (h : p.KeptIn except s t)
    (hs : p.Open s.world.scopes) (ht : p.Open t.world.scopes) (hslots : ∀ x ∈ slots, x ∉ except) :
    p.Same slots s t :=
  fun name hname hn => Kept.lookup h hs ht hn (hslots name hname)

theorem Same.trans {slots : List String} {s t u : Dialogue} (h : p.Same slots s t)
    (h' : p.Same slots t u) : p.Same slots s u :=
  fun name hname hn => (h' name hname hn).trans (h name hname hn)

/-- Whether what is left of two runs comes to the same end in all states in which these slots have the
values that they have now. -/
def Awaits (p : Private) (slots : List String) (t : Dialogue) (x y : RunOn Dialogue α) : Prop :=
  ∀ u u', p.Alike u u' → p.Same slots t u' → p.Matches u' (x u) (y u')

namespace Awaits

variable {slots : List String} {t : Dialogue} {x y : RunOn Dialogue α}

theorem ofFollows (h : p.Follows x y) : p.Awaits slots t x y := fun u u' hu _ => h u u' hu

theorem bind {f g : α → RunOn Dialogue β} (hx : p.Awaits slots t x y)
    (hf : ∀ a, p.Awaits slots t (f a) (g a)) : p.Awaits slots t (x >>= f) (y >>= g) := by
  intro u u' hu hsame
  refine (hx u u' hu hsame).bind fun a v v' hv hkept => ?_
  exact hf a v v' hv (hsame.trans (hkept.same hu.world.scopes.right hv.world.scopes.right (by simp)))

theorem mono {more : List String} (hx : p.Awaits slots t x y) (h : ∀ name ∈ slots, name ∈ more) :
    p.Awaits more t x y :=
  fun u u' hu hsame => hx u u' hu fun name hname => hsame name (h name hname)

theorem moved {u : Dialogue} (hx : p.Awaits slots t x y) (h : p.Same slots t u) :
    p.Awaits slots u x y :=
  fun v v' hv hsame => hx v v' hv (h.trans hsame)

end Awaits

/-- Whether an expression that can be read again has this value. -/
inductive Holds (p : Private) (s : Dialogue) : Expr → Value → Prop where
  | null : p.Holds s .null .null
  | bool (b : Bool) : p.Holds s (.bool b) (.bool b)
  | num (x : Float) : p.Holds s (.num x) (.num x)
  | str (text : String) : p.Holds s (.str text) (.ofString text)
  | slot {name : String} {v : Value} : name ∈ p.names →
    s.world.scopes.lookup p.scope name = .found v → p.Holds s (.ident name) v

namespace Holds

variable {r : Expr} {v : Value} {s t : Dialogue}

theorem eval (h : p.Holds s r v) (host : HostOn Dialogue) (hint : Option String) :
    r.eval host p.scope hint s = .done v s := by
  cases h with
  | slot _ hv =>
    have hread : Run.read (·.scopes.lookup p.scope _) s = .done (.found v) s :=
      congrArg (Outcome.done · s) hv
    exact bind_eq_of_done hread
  | _ => rfl

theorem moved {slots : List String} (h : p.Holds s r v) (hsame : p.Same slots s t)
    (hr : ∀ x ∈ r.uses, x ∈ slots) : p.Holds t r v := by
  cases h with
  | null => exact .null
  | bool b => exact .bool b
  | num x => exact .num x
  | str text => exact .str text
  | slot hn hv => exact .slot hn ((hsame _ (hr _ (by simp [Expr.uses])) hn).trans hv)

theorem awaits {slots : List String} (h : p.Holds s r v) (hr : ∀ x ∈ r.uses, x ∈ slots)
    (host : HostOn Dialogue) (hint : Option String) :
    p.Awaits slots s (pure v) (r.eval host p.scope hint) := by
  intro u u' hu hsame
  rw [(h.moved hsame hr).eval]
  refine ⟨.done hu, ?_⟩
  rintro _ _ ⟨⟩
  exact .refl _

theorem ofInert (hr : r.isInert = true) (hn : ∀ x ∈ r.uses, x ∈ p.names)
    (hs : p.Open s.world.scopes) : ∃ v, p.Holds s r v := by
  cases r with
  | null => exact ⟨_, .null⟩
  | bool b => exact ⟨_, .bool b⟩
  | num x => exact ⟨_, .num x⟩
  | str text => exact ⟨_, .str text⟩
  | ident name =>
    have hname := hn name (by simp [Expr.uses])
    obtain ⟨v, hv⟩ := hs.lookup hname
    exact ⟨v, .slot hname hv⟩
  | _ => cases hr

end Holds

section Settling

variable (p : Private) (host : Host)

/-- Whether effects from one state come to the same end as a run from another, in a state that suits
its value. -/
def SettlesAt (s s' : Dialogue) (x : RunOn Dialogue α) (before : List Expr)
    (Q : α → Dialogue → Prop) : Prop :=
  match evalAll (answering host) p.scope before s' with
  | .done _ t' => p.KeptIn (listSlots before) s' t' ∧ ∃ a t, x s = .done a t ∧ p.Alike t t' ∧ Q a t'
  | .abrupt c t' => p.Agrees (x s) (.abrupt c t')
  | .exhausted => x s = .exhausted

def Settles (x : RunOn Dialogue α) (before : List Expr) (Q : α → Dialogue → Prop) : Prop :=
  ∀ s s', p.Alike s s' → p.SettlesAt host s s' x before Q

/-- Whether effects do the first of two stages, so that the other can go on with the second. -/
def Lowers (x : RunOn Dialogue (RunOn Dialogue α)) (before : List Expr) (y : RunOn Dialogue α) :
    Prop :=
  p.Settles host x before fun z t' => p.Awaits (listSlots before) t' z y

end Settling

variable {host : Host} {s s' : Dialogue} {x : RunOn Dialogue α} {before ds : List Expr}
  {Q : α → Dialogue → Prop}

namespace SettlesAt

theorem pure (hs : p.Alike s s') {a : α} (hQ : Q a s') :
    p.SettlesAt host s s' (Pure.pure a) [] Q :=
  ⟨.refl _, a, s, rfl, hs, hQ⟩

theorem mono {R : α → Dialogue → Prop} (h : p.SettlesAt host s s' x before Q)
    (hQR : ∀ a t', p.Open t'.world.scopes → p.KeptIn (listSlots before) s' t' → Q a t' → R a t') :
    p.SettlesAt host s s' x before R := by
  unfold SettlesAt at h ⊢
  split at h
  · obtain ⟨hkept, a, t, hx, ht, hQ⟩ := h
    exact ⟨hkept, a, t, hx, ht, hQR a _ ht.world.scopes.right hkept hQ⟩
  · exact h
  · exact h

theorem bind {f : α → RunOn Dialogue β} {R : β → Dialogue → Prop}
    (hx : p.SettlesAt host s s' x before Q)
    (hf : ∀ a t t', p.Alike t t' → Q a t' → p.SettlesAt host t t' (f a) ds R) :
    p.SettlesAt host s s' (x >>= f) (before ++ ds) R := by
  unfold SettlesAt at hx ⊢
  rw [evalAll_append, listSlots_append]
  cases hr : evalAll (answering host) p.scope before s' with
  | done _ t' =>
    rw [hr] at hx
    obtain ⟨hkept, a, t, hxs, ht, hQ⟩ := hx
    have hrest := hf a t t' ht hQ
    unfold SettlesAt at hrest
    rw [bind_eq_of_done hr, bind_eq_of_done (f := f) hxs]
    revert hrest
    cases evalAll (answering host) p.scope ds t' with
    | done _ u' =>
      rintro ⟨hkept', hR⟩
      exact ⟨Kept.trans hkept hkept', hR⟩
    | abrupt c u' => exact id
    | exhausted => exact id
  | abrupt c t' =>
    rw [hr] at hx
    rw [bind_eq_of_abrupt hr]
    exact hx.abrupt_bind
  | exhausted =>
    rw [hr] at hx
    rw [bind_eq_of_exhausted hr]
    exact bind_eq_of_exhausted hx

theorem map {f : α → β} {R : β → Dialogue → Prop} (hx : p.SettlesAt host s s' x before Q)
    (hQR : ∀ a t', Q a t' → R (f a) t') :
    p.SettlesAt host s s' (do return f (← x)) before R := by
  have hboth : p.SettlesAt host s s' (do return f (← x)) (before ++ []) R :=
    hx.bind fun a t t' ht ha => .pure ht (hQR a t' ha)
  rwa [List.append_nil] at hboth

theorem effect {x : RunOn Dialogue Value} {r : Expr}
    (hm : p.Matches s' (x s) (r.eval (answering host) p.scope none s')) :
    p.SettlesAt host s s' x [r] fun _ _ => True := by
  unfold SettlesAt
  rw [evalAll_singleton]
  cases hr : r.eval (answering host) p.scope none s' with
  | done v t' =>
    rw [hr] at hm
    obtain ⟨t, hx, ht⟩ := hm.agrees.eq_done
    rw [bind_eq_of_done hr]
    exact ⟨(hm.kept v t' rfl).mono nofun, v, t, hx, ht, trivial⟩
  | abrupt c t' =>
    rw [hr] at hm
    rw [bind_eq_of_abrupt hr]
    exact hm.agrees
  | exhausted =>
    rw [hr] at hm
    rw [bind_eq_of_exhausted hr]
    exact hm.agrees.eq_exhausted

end SettlesAt

/-- To write a slot changes nothing that other code can see. -/
theorem writeName_slot (hs : p.Alike s s') {slot : String} (hn : slot ∈ p.names) (v : Value) :
    ∃ t', writeName p.scope slot v s' = .done () t' ∧ p.Alike s t' ∧ p.KeptIn [slot] s' t' ∧
      p.Holds t' (.ident slot) v := by
  obtain ⟨u, hu, hagree, hkept, hlookup⟩ := hs.world.scopes.assignSlot hn v
  let t' : Dialogue := { s' with world := { s'.world with scopes := u } }
  have hedit : Edit.assign p.scope slot v s'.world = (true, { s'.world with scopes := u }) := by
    simp [Edit.assign, Edit.scopes, modifyGet, MonadStateOf.modifyGet, StateT.modifyGet, hu, pure]
  have hrun : (Run.edit (Edit.assign p.scope slot v) : RunOn Dialogue Bool) s' = .done true t' := by
    exact congrArg (fun r : Bool × World => Outcome.done r.1 { s' with world := r.2 }) hedit
  refine ⟨t', ?_, ⟨⟨?_, hagree⟩, hs.events, hs.script, hs.stopped⟩, hkept, .slot hn hlookup⟩
  · exact bind_eq_of_done hrun
  · show { s.world with scopes := u } = { s'.world with scopes := u }
    rw [← hs.world.rest]

theorem SettlesAt.store {x : RunOn Dialogue Value} {r : Expr} {slot : String}
    (hm : p.Matches s' (x s) (r.eval (answering host) p.scope (some slot) s'))
    (hn : slot ∈ p.names) :
    p.SettlesAt host s s' x [.assign .set (.ident slot) r] fun v t => p.Holds t (.ident slot) v := by
  have hslots : listSlots [.assign .set (.ident slot) r] = [slot] := by
    simp [listSlots, Expr.slots, p.slots slot hn]
  unfold SettlesAt
  rw [evalAll_singleton, hslots]
  cases hr : r.eval (answering host) p.scope (some slot) s' with
  | done v t₁ =>
    rw [hr] at hm
    obtain ⟨t, hx, ht⟩ := hm.agrees.eq_done
    obtain ⟨t₂, hwrite, ht₂, hkept, hholds⟩ := writeName_slot ht hn v
    have heval : (Expr.assign .set (.ident slot) r).eval (answering host) p.scope none s' =
        .done v t₂ := (bind_eq_of_done hr).trans (bind_eq_of_done hwrite)
    rw [bind_eq_of_done heval]
    exact ⟨Kept.trans (hm.kept v t₁ rfl) hkept, v, t, hx, ht₂, hholds⟩
  | abrupt c t₁ =>
    rw [hr] at hm
    have heval : (Expr.assign .set (.ident slot) r).eval (answering host) p.scope none s' =
        .abrupt c t₁ := bind_eq_of_abrupt hr
    rw [bind_eq_of_abrupt heval]
    exact hm.agrees
  | exhausted =>
    rw [hr] at hm
    have heval : (Expr.assign .set (.ident slot) r).eval (answering host) p.scope none s' =
        .exhausted := bind_eq_of_exhausted hr
    rw [bind_eq_of_exhausted heval]
    exact hm.agrees.eq_exhausted

namespace Lowers

variable {x : RunOn Dialogue (RunOn Dialogue α)} {y : RunOn Dialogue α}

theorem ofFollows {z : RunOn Dialogue α} (h : p.Follows z y) : p.Lowers host (pure z) [] y :=
  fun _ _ hs => .pure hs (.ofFollows h)

theorem bind {f g : α → RunOn Dialogue β} (h : p.Lowers host x before y)
    (hf : ∀ a, p.Follows (f a) (g a)) :
    p.Lowers host (do return (← x) >>= f) before (y >>= g) :=
  fun s s' hs => (h s s' hs).map fun _ _ hz => hz.bind fun a => .ofFollows (hf a)

/-- The effects and what is left come to the same end as the two stages. -/
theorem agrees (h : p.Lowers host x before y) (hs : p.Alike s s') :
    p.Agrees (whole x s) ((evalAll (answering host) p.scope before >>= fun _ => y) s') := by
  have hx := h s s' hs
  unfold SettlesAt at hx
  cases hr : evalAll (answering host) p.scope before s' with
  | done _ t' =>
    rw [hr] at hx
    obtain ⟨-, z, t, hxs, ht, hz⟩ := hx
    rw [bind_eq_of_done hr, whole, bind_eq_of_done hxs]
    exact (hz t t' ht fun _ _ _ => rfl).agrees
  | abrupt c t' =>
    rw [hr] at hx
    rw [bind_eq_of_abrupt hr]
    exact hx.abrupt_bind
  | exhausted =>
    rw [hr] at hx
    rw [bind_eq_of_exhausted hr, whole, bind_eq_of_exhausted hx]
    exact .exhausted

variable {x : RunOn Dialogue (RunOn Dialogue Value)} {r : Expr}

theorem store {slot : String} (h : p.Lowers host x before (r.eval (answering host) p.scope (some slot)))
    (hn : slot ∈ p.names) :
    p.Settles host (whole x) (before ++ [.assign .set (.ident slot) r])
      fun v t => p.Holds t (.ident slot) v := by
  intro s s' hs
  exact (h s s' hs).bind fun z t t' ht hz => .store (hz t t' ht fun _ _ _ => rfl) hn

theorem inert {hint : Option String} (h : p.Lowers host x before (r.eval (answering host) p.scope hint))
    (hr : r.isInert = true) (hn : ∀ y ∈ r.uses, y ∈ p.names) :
    p.Settles host (whole x) before fun v t => p.Holds t r v := by
  intro s s' hs
  have hboth : p.SettlesAt host s s' (whole x) (before ++ []) fun v t => p.Holds t r v := by
    refine (h s s' hs).bind fun z t t' ht hz => ?_
    obtain ⟨v, hv⟩ := Holds.ofInert hr hn ht.world.scopes.right
    have hm := (hz t t' ht fun _ _ _ => rfl).agrees
    rw [hv.eval] at hm
    obtain ⟨t₁, hz, ht₁⟩ := hm.eq_done
    exact ⟨.refl _, v, t₁, hz, ht₁, hv⟩
  rwa [List.append_nil] at hboth

theorem effect (h : p.Lowers host x before (r.eval (answering host) p.scope none)) :
    p.Settles host (whole x) (before ++ [r]) fun _ _ => True :=
  fun s s' hs => (h s s' hs).bind fun _ t t' ht hz => .effect (hz t t' ht fun _ _ _ => rfl)

end Lowers

section Holding

variable {α β : Type} {p : Private} {host : Host} {before ds : List Expr} {hint : Option String}

theorem Lowers.wrap {x : RunOn Dialogue (RunOn Dialogue α)} {y : RunOn Dialogue α}
    {f g : RunOn Dialogue α → RunOn Dialogue β} (h : p.Lowers host x before y)
    (hf : ∀ slots t z y, p.Awaits slots t z y → p.Awaits slots t (f z) (g y)) :
    p.Lowers host (do return f (← x)) before (g y) :=
  fun s s' hs => (h s s' hs).map fun _ _ hz => hf _ _ _ _ hz

theorem Settles.lowers {x : RunOn Dialogue Value} {r : Expr}
    (h : p.Settles host x before fun v t => p.Holds t r v)
    (hr : ∀ y ∈ r.uses, y ∈ listSlots before) :
    p.Lowers host (do return pure (← x)) before (r.eval (answering host) p.scope hint) :=
  fun s s' hs => (h s s' hs).map fun _ _ hv => hv.awaits hr (answering host) hint

/-- What waits in slots is still there when effects have filled other slots. -/
theorem Settles.bind_keeping {x : RunOn Dialogue α} {f : α → RunOn Dialogue β}
    {Q : α → Dialogue → Prop} {R : β → Dialogue → Prop} (hx : p.Settles host x before Q)
    (hQ : ∀ a t u, p.Same (listSlots before) t u → Q a t → Q a u)
    (hdisjoint : ∀ y ∈ listSlots before, y ∉ listSlots ds)
    (hf : ∀ a s s', p.Alike s s' → Q a s' →
      p.SettlesAt host s s' (f a) ds fun b u => Q a u → R b u) :
    p.Settles host (x >>= f) (before ++ ds) R := by
  intro s s' hs
  refine (hx s s' hs).bind fun a t t' ht ha => ?_
  refine (hf a t t' ht ha).mono fun b u' hopen hkept hR => hR ?_
  exact hQ a _ _ (hkept.same ht.world.scopes.right hopen hdisjoint) ha

theorem Settles.bind_lowers_of {x : RunOn Dialogue α} {Q : α → Dialogue → Prop}
    {f : α → RunOn Dialogue (RunOn Dialogue β)} {g : α → RunOn Dialogue β} {y : RunOn Dialogue β}
    (hx : p.Settles host x before Q)
    (hQ : ∀ a t u, p.Same (listSlots before) t u → Q a t → Q a u)
    (hdisjoint : ∀ y ∈ listSlots before, y ∉ listSlots ds)
    (hf : ∀ a t, Q a t → p.Lowers host (f a) ds (g a)) (hy : ∀ a u, Q a u → y u = g a u) :
    p.Lowers host (x >>= f) (before ++ ds) y := by
  refine hx.bind_keeping hQ hdisjoint fun a s s' hs ha => ?_
  refine (hf a s' ha s s' hs).mono fun z t _ _ hz hQt v v' hv hsame => ?_
  rw [listSlots_append] at hsame
  have ha : Q a v' := hQ a _ _ (fun y hy => hsame y (List.mem_append_left _ hy)) hQt
  rw [hy a v' ha]
  exact hz v v' hv fun y hy => hsame y (List.mem_append_right _ hy)

theorem Settles.bind_lowers (hint : Option String) {x : RunOn Dialogue Value} {r : Expr}
    {f : Value → RunOn Dialogue (RunOn Dialogue β)} {g : Value → RunOn Dialogue β}
    (hx : p.Settles host x before fun v t => p.Holds t r v)
    (hr : ∀ y ∈ r.uses, y ∈ listSlots before)
    (hdisjoint : ∀ y ∈ listSlots before, y ∉ listSlots ds)
    (hf : ∀ v, p.Lowers host (f v) ds (g v)) :
    p.Lowers host (x >>= f) (before ++ ds) (r.eval (answering host) p.scope hint >>= g) :=
  hx.bind_lowers_of (fun _ _ _ hsame hv => hv.moved hsame hr) hdisjoint (fun v _ _ => hf v)
    fun _ _ hv => bind_eq_of_done (hv.eval (answering host) hint)

theorem Settles.then_lowers {x : RunOn Dialogue β} {y : RunOn Dialogue (RunOn Dialogue α)}
    {z : RunOn Dialogue α} (hx : p.Settles host x before fun _ _ => True)
    (hy : p.Lowers host y ds z) :
    p.Lowers host (do let _ ← x; y) (before ++ ds) z := by
  intro s s' hs
  refine (hx s s' hs).bind fun v t t' ht _ => ?_
  refine (hy t t' ht).mono fun z u' _ _ hz => hz.mono fun w hw => ?_
  rw [listSlots_append]
  exact List.mem_append_right _ hw

theorem Settles.bind {x : RunOn Dialogue α} {f : α → RunOn Dialogue β}
    {Q : α → Dialogue → Prop} {R : β → Dialogue → Prop} (hx : p.Settles host x before Q)
    (hf : ∀ a, p.Settles host (f a) ds R) : p.Settles host (x >>= f) (before ++ ds) R :=
  fun s s' hs => (hx s s' hs).bind fun a t t' ht _ => hf a t t' ht

theorem Lowers.spill {x : RunOn Dialogue (RunOn Dialogue Value)} {e : Expr} {s : Hoisted}
    {n m : SlotNumber} (hx : p.Lowers host x before (e.eval (answering host) p.scope hint))
    (hlook : e.look ≠ .anonymous) (hspread : e.look ≠ .spread)
    (hs : e.spill.run n = .ok (s, m)) (hn : ∀ y ∈ listSlots s.before, y ∈ p.names)
    (hinert : e.isInert = true → ∀ y ∈ e.uses, y ∈ p.names) :
    p.Settles host (whole x) (before ++ s.before) fun v t => p.Holds t s.rest v := by
  rcases run_spill_ok e s n m hs with ⟨d, t, rfl, -, -⟩ | ⟨hi, rfl, -⟩ | ⟨rfl, -⟩
  · exact absurd rfl hspread
  · rw [List.append_nil]
    exact hx.inert hi (hinert hi)
  · rw [eval_hint _ _ hlook] at hx
    refine Lowers.store ?_ (hn (slotName n) (by simp))
    rwa [eval_hint _ _ hlook]

end Holding

end Private

end Resumable
