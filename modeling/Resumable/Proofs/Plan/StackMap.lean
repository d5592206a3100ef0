import Resumable.Proofs.Lowering.Leading
import Resumable.Proofs.Plan.Completeness

/-!
What lies on the stacks of an instance is known before it runs: a stack map gives for every
instruction the scopes, the frames and the loops that are open when it is dispatched. Main statement:
`buildPlan_mapped`: every plan that is built has such a map.
-/

set_option autoImplicit false

namespace Resumable

/-- How far a protected region has come. -/
inductive Stage where
  | body
  | handler
  | finalizer
  deriving DecidableEq, Repr

/-- One entry of the stacks. The origin is the position of the instruction that puts it there. -/
inductive Site where
  | scope
  | region (origin : Nat) (onThrow onExit : Option Nat) (stage : Stage)
  | iterator (origin : Nat)
  | loop (origin : Nat) (labels : List String) (kind : LoopKind) (onContinue : Option Nat)
    (onBreak : Nat)

abbrev Context := List Site

abbrev StackMap := Nat → Context

namespace Site

def frameOrigin? : Site → Option Nat
  | .region origin _ _ _ | .iterator origin => some origin
  | .scope | .loop _ _ _ _ _ => none

def stage? : Site → Option Stage
  | .region _ _ _ stage => some stage
  | .scope | .iterator _ | .loop _ _ _ _ _ => none

def breakable? : Site → Option Breakable
  | .loop _ labels kind _ _ => some ⟨labels, kind⟩
  | .scope | .region _ _ _ _ | .iterator _ => none

end Site

namespace Context

/-- The constructs that jumps can lead to, innermost first. -/
def breakables (c : Context) : List Breakable := c.filterMap Site.breakable?

@[simp] theorem breakables_nil : breakables [] = [] := rfl

@[simp] theorem breakables_scope (c : Context) : breakables (.scope :: c) = breakables c := rfl

@[simp] theorem breakables_region (origin : Nat) (onThrow onExit : Option Nat) (stage : Stage)
    (c : Context) : breakables (.region origin onThrow onExit stage :: c) = breakables c := rfl

@[simp] theorem breakables_iterator (origin : Nat) (c : Context) :
    breakables (.iterator origin :: c) = breakables c := rfl

@[simp] theorem breakables_loop (origin : Nat) (labels : List String) (kind : LoopKind)
    (onContinue : Option Nat) (onBreak : Nat) (c : Context) :
    breakables (.loop origin labels kind onContinue onBreak :: c) =
      ⟨labels, kind⟩ :: breakables c := rfl

end Context

/-- Whether all code from one position up to the origin of a frame runs inside that frame. -/
def Inside (M : StackMap) (ip origin : Nat) : Prop :=
  ip < origin ∧ ∀ k, ip ≤ k → k < origin →
    ∃ s : Site, s.frameOrigin? = some origin ∧ s :: M origin <:+ M k

/-- What an instruction does to the context. A frame is left by the code that it belongs to; a finally
block is left by its end alone. -/
@[simp] def Instr.Fits (M : StackMap) (ip : Nat) : Instr → Prop
  | .evaluate _ next | .yield _ next | .yieldStar _ next | .await _ next | .store _ next
  | .jump next | .copyScope next => M next = M ip
  | .branch _ onTrue onFalse => M onTrue = M ip ∧ M onFalse = M ip
  | .enterTry onThrow onExit next => M next = .region ip onThrow onExit .body :: M ip
  | .exitTry next _ =>
    ∃ s o, M ip = s :: M next ∧ s.frameOrigin? = some o ∧ s.stage? ≠ some .finalizer ∧
      Inside M ip o
  | .endFinally next =>
    ∃ o onThrow onExit, M ip = .region o onThrow onExit .finalizer :: M next ∧ Inside M ip o
  | .bindCatch _ next | .pushScope _ next => M next = .scope :: M ip
  | .popScope next => M ip = .scope :: M next
  | .enterLoop labels kind onContinue onBreak next =>
    M next = .loop ip labels kind onContinue onBreak :: M ip
  | .exitLoop next =>
    ∃ o labels kind onContinue onBreak, M ip = .loop o labels kind onContinue onBreak :: M next
  | .brk label => JumpSite.leads ⟨label, false, (M ip).breakables⟩ = true
  | .cont label => JumpSite.leads ⟨label, true, (M ip).breakables⟩ = true
  | .openIterator _ _ _ next => M next = .iterator ip :: M ip
  | .moveNext _ _ body exit _ => M body = .scope :: M ip ∧ M exit = M ip ∧
    ∃ o labels kind onContinue onBreak p c,
      M ip = .loop o labels kind onContinue onBreak :: .iterator p :: c
  | .ret _ | .throw _ => True

/-- Whether a position is the end of a loop that is left when its iterator has no more elements. -/
def Plan.EndsLoop (plan : Plan) (ip : Nat) : Prop :=
  plan.get? (ip + 1) = some (.exitLoop ip) ∧ ∃ kind pattern body isAsync,
    plan.get? (ip + 2) = some (.moveNext kind pattern body (ip + 1) isAsync)

/-- What an instruction does to the context, where the jumps of a statement that it runs whole lead,
provided that they are known to lead somewhere, and which iterators are left without closing them. -/
@[simp] def Instr.Suits (p : Prop) (plan : Plan) (M : StackMap) (ip : Nat) : Instr → Prop
  | .evaluate s next => (p → s.jumpsLead (M ip).breakables [] = true) ∧ M next = M ip
  | .exitTry next false => (∀ o c, M ip = .iterator o :: c → plan.EndsLoop ip) ∧
    (exitTry next false).Fits M ip
  | i => i.Fits M ip

theorem Instr.Suits.fits {p : Prop} {plan : Plan} {M : StackMap} {ip : Nat} {i : Instr}
    (h : i.Suits p plan M ip) : i.Fits M ip := by
  cases i with
  | evaluate => exact h.2
  | exitTry _ close =>
    cases close with
    | false => exact h.2
    | true => exact h
  | _ => exact h

/-- Whether an entry is put there by its origin, and leads where the map expects what is around
it. -/
def Site.Sound (plan : Plan) (M : StackMap) (outer : Context) : Site → Prop
  | .scope => True
  | .region o onThrow onExit stage =>
    (∃ next, plan.get? o = some (.enterTry onThrow onExit next)) ∧ M o = outer ∧
      (stage = .body → ∀ a, onThrow = some a → M a = .region o onThrow onExit .handler :: outer) ∧
      (stage ≠ .finalizer → ∀ a, onExit = some a →
        M a = .region o onThrow onExit .finalizer :: outer)
  | .iterator o =>
    (∃ e isAsync overKeys next, plan.get? o = some (.openIterator e isAsync overKeys next)) ∧
      M o = outer
  | .loop o labels kind onContinue onBreak =>
    (∃ next, plan.get? o = some (.enterLoop labels kind onContinue onBreak next)) ∧ M o = outer ∧
      M onBreak = outer ∧
      (∀ a, onContinue = some a → M a = .loop o labels kind onContinue onBreak :: outer) ∧
      (kind = .loop → onContinue.isSome = true)

def Context.Sound (plan : Plan) (M : StackMap) : Context → Prop
  | [] => True
  | s :: c => s.Sound plan M c ∧ Context.Sound plan M c

/-- Whether the instructions at a position fit the map. -/
def CodeFits (p : Prop) (plan : Plan) (M : StackMap) : Nat → List Instr → Prop
  | _, [] => True
  | ip, i :: code => ((M ip).Sound plan M ∧ i.Suits p plan M ip) ∧ CodeFits p plan M (ip + 1) code

def Lies {α : Type} (at? : Nat → Option α) : Nat → List α → Prop
  | _, [] => True
  | base, x :: xs => at? base = some x ∧ Lies at? (base + 1) xs

section Positions

variable {α : Type} (at? : Nat → Option α) {p : Prop} (plan : Plan) (M : StackMap)

@[simp] theorem lies_nil (base : Nat) : Lies at? base [] := trivial

@[simp] theorem lies_cons (base : Nat) (x : α) (xs : List α) :
    Lies at? base (x :: xs) ↔ at? base = some x ∧ Lies at? (base + 1) xs := Iff.rfl

@[simp] theorem lies_append (base : Nat) (xs ys : List α) :
    Lies at? base (xs ++ ys) ↔ Lies at? base xs ∧ Lies at? (base + xs.length) ys := by
  induction xs generalizing base with
  | nil => simp
  | cons x xs ih =>
    simp only [List.cons_append, lies_cons, ih, List.length_cons, and_assoc]
    rw [show base + 1 + xs.length = base + (xs.length + 1) by omega]

@[simp] theorem codeFits_nil (ip : Nat) : CodeFits p plan M ip [] := trivial

@[simp] theorem codeFits_cons (ip : Nat) (i : Instr) (code : List Instr) :
    CodeFits p plan M ip (i :: code) ↔
      ((M ip).Sound plan M ∧ i.Suits p plan M ip) ∧ CodeFits p plan M (ip + 1) code := Iff.rfl

@[simp] theorem codeFits_append (ip : Nat) (c d : List Instr) :
    CodeFits p plan M ip (c ++ d) ↔ CodeFits p plan M ip c ∧ CodeFits p plan M (ip + c.length) d := by
  induction c generalizing ip with
  | nil => simp
  | cons i c ih =>
    simp only [List.cons_append, codeFits_cons, ih, List.length_cons, and_assoc]
    rw [show ip + 1 + c.length = ip + (c.length + 1) by omega]

theorem codeFits_get (ip k : Nat) (code : List Instr) (i : Instr) (h : CodeFits p plan M ip code)
    (hk : code[k]? = some i) : (M (ip + k)).Sound plan M ∧ i.Suits p plan M (ip + k) := by
  induction code generalizing ip k with
  | nil => simp at hk
  | cons j code ih =>
    cases k with
    | zero =>
      simp only [List.getElem?_cons_zero, Option.some.injEq] at hk
      subst hk
      exact h.1
    | succ k =>
      have h := ih (ip + 1) k h.2 (by simpa using hk)
      rwa [show ip + 1 + k = ip + (k + 1) by omega] at h

theorem lies_of_getElem (base : Nat) (xs : List α)
    (h : ∀ k x, xs[k]? = some x → at? (base + k) = some x) : Lies at? base xs := by
  induction xs generalizing base with
  | nil => trivial
  | cons x xs ih =>
    refine ⟨h 0 x rfl, ih (base + 1) fun k y hk => ?_⟩
    have := h (k + 1) y (by simpa using hk)
    rwa [show base + (k + 1) = base + 1 + k by omega] at this

end Positions

abbrev StackMap.Lies (M : StackMap) (base : Nat) (cs : List Context) : Prop :=
  Resumable.Lies (fun k => some (M k)) base cs

theorem lies_all {M : StackMap} {P : Context → Prop} {base : Nat} {cs : List Context}
    (h : M.Lies base cs) (hP : ∀ c ∈ cs, P c) {k : Nat} (hl : base ≤ k)
    (hr : k < base + cs.length) : P (M k) := by
  induction cs generalizing base with
  | nil =>
    simp at hr
    omega
  | cons c cs ih =>
    simp only [List.length_cons] at hr
    obtain ⟨hc, hcs⟩ := h
    by_cases hk : base = k
    · subst hk
      rw [Option.some.inj hc]
      exact hP c (by simp)
    · exact ih hcs (fun d hd => hP d (by simp [hd])) (by omega) (by omega)

/-- Whether a fragment is entered in a context and keeps to the map there. -/
structure Fragment.FitsIn (p : Prop) (plan : Plan) (M : StackMap) (c : Context) (base : Nat) (f : Fragment) :
    Prop where
  entry : M f.entry = c
  code : c.Sound plan M → CodeFits p plan M base f.code

section Flat

variable {inAsync : Bool} (p : Prop) (plan : Plan) {M : StackMap} {c : Context}

/-- Whether the context is the same from one position on, over a length. -/
def FlatOn (M : StackMap) (c : Context) (base size : Nat) : Prop :=
  ∀ k, base ≤ k → k < base + size → M k = c

theorem FlatOn.sub {base size base' size' : Nat} (h : FlatOn M c base size) (hl : base ≤ base')
    (hr : base' + size' ≤ base + size) : FlatOn M c base' size' :=
  fun k hk hk' => h k (by omega) (by omega)

theorem skip_fitsIn {base next : Nat} (hn : M next = c) :
    (Fragment.skip next).FitsIn p plan M c base :=
  ⟨hn, fun _ => trivial⟩

theorem suspendInstr_suits {e : Expr} (ip : Nat) {store : Nat} {i : Instr}
    (h : e.suspendInstr? store = some i) (hM : M store = M ip) : i.Suits p plan M ip := by
  rw [Expr.suspendInstr?.eq_def] at h
  split at h
  all_goals
    cases h
    try exact hM

theorem EffectsLaid.fitsIn {base next : Nat} {es : List Expr} {f : Fragment}
    (h : EffectsLaid inAsync base next es f) (hn : M next = c)
    (hM : FlatOn M c base f.size) : f.FitsIn p plan M c base := by
  induction h with
  | nil => exact skip_fitsIn p plan hn
  | @plain base next e es rest _ _ ih =>
    simp only [Fragment.size_mk, List.length_append, Fragment.length_code,
      List.length_singleton] at hM
    have hrest := ih hn (hM.sub (by omega) (by omega))
    have hi := hM (base + rest.size) (by omega) (by omega)
    exact ⟨hi, fun hs => by simp [hrest.code hs, hi, hs, Stmt.jumpsLead, hrest.entry]⟩
  | @suspend base next e d slot es rest i _ _ _ _ hi ih =>
    simp only [Fragment.size_mk, List.length_append, Fragment.length_code, List.length_cons,
      List.length_nil] at hM
    have hrest := ih hn (hM.sub (by omega) (by omega))
    have hstore := hM (base + rest.size) (by omega) (by omega)
    have hsuspend := hM (base + rest.size + 1) (by omega) (by omega)
    have hfits := suspendInstr_suits p plan (base + rest.size + 1) hi (hstore.trans hsuspend.symm)
    refine ⟨hsuspend, fun hs => (codeFits_append ..).2 ⟨hrest.code hs, ⟨?_, ?_⟩, ⟨?_, hfits⟩, trivial⟩⟩
    · exact hstore.symm ▸ hs
    · exact hrest.entry.trans hstore.symm
    · exact hsuspend.symm ▸ hs
  | seq _ _ _ ih ih' =>
    simp only [Fragment.size_mk, List.length_append, Fragment.length_code] at hM
    have hrest := ih hn (hM.sub (by omega) (by omega))
    have hfirst := ih' hrest.entry (hM.sub (by omega) (by omega))
    exact ⟨hfirst.entry, fun hs => by simp [hrest.code hs, hfirst.code hs]⟩

theorem ConditionLaid.fitsIn {base onTrue onFalse : Nat} {e : Expr} {f : Fragment}
    (h : ConditionLaid inAsync base onTrue onFalse e f)
    (ht : M onTrue = c) (hf : M onFalse = c) (hM : FlatOn M c base f.size) :
    f.FitsIn p plan M c base := by
  cases h with
  | plain _ =>
    have hi := hM base (by omega) (by simp [Fragment.one])
    exact ⟨hi, fun hs => by simp [Fragment.one, hi, hs, ht, hf]⟩
  | seq _ _ hfirst =>
    simp only [Fragment.size_mk, List.length_cons, Fragment.length_code] at hM
    have hi := hM base (by omega) (by omega)
    have hfirst := hfirst.fitsIn p plan hi (hM.sub (by omega) (by omega))
    exact ⟨hfirst.entry, fun hs => by simp [hi, hs, hfirst.code hs, ht, hf]⟩

theorem TestLaid.fitsIn {base onTrue onFalse : Nat} {e : Option Expr} {f : Fragment}
    (h : TestLaid inAsync base onTrue onFalse e f)
    (ht : M onTrue = c) (hf : M onFalse = c) (hM : FlatOn M c base f.size) :
    f.FitsIn p plan M c base := by
  cases h with
  | none => exact skip_fitsIn p plan ht
  | some h => exact h.fitsIn p plan ht hf hM

theorem UpdateLaid.fitsIn {base next : Nat} {e : Option Expr} {f : Fragment}
    (h : UpdateLaid inAsync base next e f) (hn : M next = c)
    (hM : FlatOn M c base f.size) : f.FitsIn p plan M c base := by
  cases h with
  | none => exact skip_fitsIn p plan hn
  | some h => exact h.fitsIn p plan hn hM

theorem InitLaid.fitsIn {base next : Nat} {init : ForInit} {f : Fragment}
    (h : InitLaid inAsync base next init f) (hn : M next = c)
    (hM : FlatOn M c base f.size) : f.FitsIn p plan M c base := by
  cases h with
  | absent => exact skip_fitsIn p plan hn
  | expr h => exact h.fitsIn p plan hn hM
  | declare _ =>
    have hi := hM base (by omega) (by simp [Fragment.one])
    exact ⟨hi, fun hs => by simp [Fragment.one, hi, hs, Stmt.jumpsLead, hn]⟩

theorem buildTests_fitsIn {subject : String} {base otherwise : Nat} {cases : List (Case × Nat)}
    (ho : M otherwise = c) (hc : ∀ p ∈ cases, M p.2 = c)
    (hM : FlatOn M c base (buildTests subject base otherwise cases).size) :
    (buildTests subject base otherwise cases).FitsIn p plan M c base := by
  induction cases with
  | nil =>
    have hi := hM base (by omega) (by simp [buildTests, Fragment.one])
    exact ⟨hi, fun hs => by simp [buildTests, Fragment.one, hi, hs, ho]⟩
  | cons p cases ih =>
    obtain ⟨⟨test, body⟩, entry⟩ := p
    have hentry := hc (.mk test body, entry) (by simp)
    have ih := ih fun q hq => hc q (by simp [hq])
    simp only [buildTests, Case.test] at hM ⊢
    cases test with
    | none => exact ih hM
    | some e =>
      simp only [Fragment.close, Fragment.size_mk, List.length_append, Fragment.length_code,
        List.length_singleton] at hM ⊢
      have ih := ih (hM.sub (by omega) (by omega))
      have hi := hM (base + (buildTests subject base otherwise cases).size) (by omega) (by omega)
      exact ⟨hi, fun hs => by simp [ih.code hs, hi, hs, hentry, ih.entry]⟩

end Flat

def AllAbove (c : Context) (cs : List Context) : Prop := ∀ d ∈ cs, c <:+ d

section Above

variable (c d : Context) (cs ds : List Context)

@[simp] theorem allAbove_nil : AllAbove c [] := by simp [AllAbove]

@[simp] theorem allAbove_cons : AllAbove c (d :: cs) ↔ c <:+ d ∧ AllAbove c cs := by
  simp [AllAbove]

@[simp] theorem allAbove_append : AllAbove c (cs ++ ds) ↔ AllAbove c cs ∧ AllAbove c ds := by
  simp [AllAbove, or_imp, forall_and]

theorem allAbove_replicate (size : Nat) (h : c <:+ d) : AllAbove c (List.replicate size d) := by
  intro e he
  rwa [List.eq_of_mem_replicate he]

variable {c d cs}

theorem AllAbove.below (h : AllAbove d cs) (hc : c <:+ d) : AllAbove c cs :=
  fun e he => hc.trans (h e he)

end Above

/-- Whether contexts can be given to a fragment that runs above an inner context: wherever they
stand in a map that meets a need, the code fits and is entered in the inner context. -/
def Mappable (p : Prop) (inner : Context) (base : Nat) (f : Fragment) (entries : List Nat)
    (needs : StackMap → Prop) : Prop :=
  ∃ cs : List Context, cs.length = f.size ∧ AllAbove inner cs ∧
    ∀ plan M, Lies plan.get? base f.code → M.Lies base cs → inner.Sound plan M → needs M →
      (∀ a ∈ entries, M a = inner) ∧ CodeFits p plan M base f.code

/-- Whether the code of a part can be given contexts. Handlers and finally blocks run above the
frame of their own statement. -/
def Part.Mappable (p : Prop) (c : Context) (base next : Nat) (f : Fragment) : Part → Prop
  | .handler _ onThrow => ∀ o t e, Resumable.Mappable p (.region o t e .handler :: c) base f
      onThrow.toList fun M => M next = c ∧ Inside M base o
  | .finalizer _ onExit => ∀ o t e, Resumable.Mappable p (.region o t e .finalizer :: c) base f
      onExit.toList fun M => M next = c ∧ Inside M base o
  | .cases _ entries => Resumable.Mappable p c base f (f.entry :: entries) fun M => M next = c
  | _ => Resumable.Mappable p c base f [f.entry] fun M => M next = c

section Mapping

variable {p : Prop} {c : Context} {base next : Nat}

theorem lies_replicate {M : StackMap} {size : Nat} (h : M.Lies base (List.replicate size c)) :
    FlatOn M c base size := fun k hl hr =>
  lies_all (P := fun d => d = c) h (fun _ hd => List.eq_of_mem_replicate hd) hl (by simpa using hr)

theorem mappable_flat {f : Fragment} {needs : StackMap → Prop}
    (h : ∀ (plan : Plan) (M : StackMap), needs M → FlatOn M c base f.size →
      f.FitsIn p plan M c base) :
    Mappable p c base f [f.entry] needs := by
  refine ⟨List.replicate f.size c, by simp, allAbove_replicate _ _ _ List.suffix_rfl,
    fun plan M _ hM hs hn => ?_⟩
  have hf := h plan M hn (lies_replicate hM)
  exact ⟨by simp [hf.entry], hf.code hs⟩

theorem mappable_skip {f : Fragment} (hf : f = .skip next) :
    Mappable p c base f [f.entry] fun M => M next = c := by
  subst hf
  exact mappable_flat fun plan _ hn _ => skip_fitsIn p plan hn

theorem mappable_empty {needs : StackMap → Prop} : Mappable p c base (.skip next) [] needs :=
  ⟨[], rfl, allAbove_nil c, fun _ _ _ _ _ _ => ⟨nofun, trivial⟩⟩

theorem mappable_one {i : Instr}
    (h : ∀ (plan : Plan) (M : StackMap), M next = c → M base = c → i.Suits p plan M base) :
    Mappable p c base (.one base i) [base] fun M => M next = c :=
  mappable_flat fun plan M hn hM => by
    have hi := hM base (by omega) (by simp [Fragment.one])
    exact ⟨hi, fun hs => ⟨⟨hi.symm ▸ hs, h plan M hn hi⟩, trivial⟩⟩

theorem inScope_mappable {functions : List FunctionDecl} {f : Fragment}
    (h : Mappable p (.scope :: c) (base + 1) f [f.entry] fun M => M base = .scope :: c) :
    Mappable p c base (f.inScope base next functions) [(f.inScope base next functions).entry]
      fun M => M next = c := by
  obtain ⟨cs, hlen, hsuf, h⟩ := h
  refine ⟨(.scope :: c) :: cs ++ [c], by simp [hlen], by simp [hsuf.below],
    fun plan M hcode hM hs hn => ?_⟩
  simp only [Fragment.inScope, List.cons_append, lies_cons, lies_append, hlen,
    Fragment.length_code, Option.some.injEq, lies_nil, and_true] at hcode hM
  obtain ⟨-, hcode, -⟩ := hcode
  obtain ⟨hpop, hM, hpush⟩ := hM
  obtain ⟨hentry, hfits⟩ := h plan M hcode hM ⟨trivial, hs⟩ hpop
  simp only [List.mem_singleton, forall_eq] at hentry
  simp [Fragment.inScope, hpop, hpush, hfits, hs, hn, hentry, Context.Sound,
    Site.Sound]

theorem loop_sound {plan : Plan} {M : StackMap} {labels : List String} {kind : LoopKind}
    {onContinue : Option Nat} {o onBreak start : Nat}
    (ho : plan.get? o = some (.enterLoop labels kind onContinue onBreak start)) (hM : M o = c)
    (hb : M onBreak = c)
    (hc : ∀ a, onContinue = some a → M a = .loop o labels kind onContinue onBreak :: c)
    (hk : kind = .loop → onContinue.isSome = true) (hs : c.Sound plan M) :
    Context.Sound plan M (.loop o labels kind onContinue onBreak :: c) :=
  ⟨⟨⟨start, ho⟩, hM, hb, hc, hk⟩, hs⟩

theorem enclose_mappable {labels : List String} {f : Fragment}
    (h : ∀ d : Context, d.breakables = ⟨labels, .block⟩ :: c.breakables →
      Mappable p d (base + 1) f [f.entry] fun M => M base = d) :
    Mappable p c base (f.enclose base next labels) [(f.enclose base next labels).entry]
      fun M => M next = c := by
  obtain ⟨cs, hlen, hsuf, h⟩ :=
    h (.loop (base + 1 + f.size) labels .block none next :: c) rfl
  refine ⟨(.loop (base + 1 + f.size) labels .block none next :: c) :: cs ++ [c], by
    simp [Fragment.enclose, hlen], by simp [hsuf.below], fun plan M hcode hM hs hn => ?_⟩
  simp only [Fragment.enclose, List.cons_append, lies_cons, lies_append, hlen,
    Fragment.length_code, Option.some.injEq, lies_nil, and_true] at hcode hM
  obtain ⟨-, hcode, henter⟩ := hcode
  obtain ⟨hexit, hM, hM'⟩ := hM
  have hsl := loop_sound henter hM' hn (by simp) (by simp) hs
  obtain ⟨hentry, hfits⟩ := h plan M hcode hM hsl hexit
  simp only [List.mem_singleton, forall_eq] at hentry
  simp [Fragment.enclose, hexit, hM', hfits, hs, hsl, hn, hentry]

theorem testLoop_mappable {inAsync : Bool} {labels : List String} {b t : Fragment} {test : Expr}
    {start : Nat}
    (h : ∀ d : Context, d.breakables = ⟨labels, .loop⟩ :: c.breakables →
      Mappable p d (base + 2) b [b.entry] fun M => M (base + 1) = d)
    (ht : ConditionLaid inAsync (base + 2 + b.size) b.entry base test t)
    (hstart : start = base + 1 ∨ start = b.entry) :
    Mappable p c base (.testLoop base next labels b t start)
      [(Fragment.testLoop base next labels b t start).entry] fun M => M next = c := by
  let s := Site.loop (base + 2 + b.size + t.size) labels .loop (some (base + 1)) next
  obtain ⟨cs, hlen, hsuf, h⟩ := h (s :: c) rfl
  refine ⟨(s :: c) :: (s :: c) :: cs ++ List.replicate t.size (s :: c) ++ [c], by
    simp [Fragment.testLoop, hlen], by simp [hsuf.below, allAbove_replicate],
    fun plan M hcode hM hs hn => ?_⟩
  simp only [Fragment.testLoop, List.cons_append, lies_cons, lies_append, hlen,
    Fragment.length_code, Option.some.injEq, lies_nil, and_true, List.length_append,
    List.length_replicate, ← Nat.add_assoc] at hcode hM
  obtain ⟨-, -, ⟨hb, -⟩, henter⟩ := hcode
  obtain ⟨hexit, hjump, ⟨hMb, hMt⟩, hM'⟩ := hM
  have hsl : Context.Sound plan M (s :: c) :=
    loop_sound henter hM' hn (fun a ha => by cases ha; exact hjump) (fun _ => rfl) hs
  obtain ⟨hentry, hfits⟩ := h plan M hb hMb hsl hjump
  simp only [List.mem_singleton, forall_eq] at hentry
  have ht := ht.fitsIn p plan hentry hexit (lies_replicate hMt)
  have hstart : M start = s :: c := by
    obtain rfl | rfl := hstart
    · exact hjump
    · exact hentry
  refine ⟨by simpa [Fragment.testLoop] using hM', ?_⟩
  simp only [Fragment.testLoop, List.cons_append, codeFits_cons, codeFits_append, codeFits_nil,
    List.length_append, Fragment.length_code, ← Nat.add_assoc, hexit, hjump, hM', hsl, hs,
    Instr.Suits, Instr.Fits, hn, hstart, ht.entry, and_true, true_and]
  exact ⟨⟨_, _, _, _, _, rfl⟩, ⟨hfits, ht.code hsl⟩, rfl⟩

theorem step_fitsIn {plan : Plan} {M : StackMap} {ownScope : Bool} {u : Fragment}
    (h : FlatOn M c base u.size → u.FitsIn p plan M c base)
    (hM : FlatOn M c base (u.step ownScope base).size) :
    (u.step ownScope base).FitsIn p plan M c base := by
  cases ownScope with
  | false => exact h hM
  | true =>
    simp only [Fragment.step, if_true, Fragment.close, Fragment.size_mk, List.length_append,
      Fragment.length_code, List.length_singleton] at hM ⊢
    have hu := h (hM.sub (by omega) (by omega))
    have hi := hM (base + u.size) (by omega) (by omega)
    exact ⟨hi, fun hs => by simp [hu.code hs, hi, hs, hu.entry]⟩

theorem headLoop_mappable {inAsync ownScope : Bool} {labels : List String} {u k b t i : Fragment}
    {init : ForInit} {test update : Option Expr}
    (hu : UpdateLaid inAsync (base + 2) (base + 1) update u) (hk : u.step ownScope (base + 2) = k)
    (h : ∀ d : Context, d.breakables = ⟨labels, .loop⟩ :: c.breakables →
      Mappable p d (base + 2 + k.size) b [b.entry] fun M => M k.entry = d)
    (ht : TestLaid inAsync (base + 2 + k.size + b.size) b.entry base test t)
    (hi : InitLaid inAsync (base + 2 + k.size + b.size + t.size + 1)
      (base + 2 + k.size + b.size + t.size) init i) :
    Mappable p c base (.headLoop base next labels k b t i)
      [(Fragment.headLoop base next labels k b t i).entry] fun M => M next = c := by
  let s := Site.loop (base + 2 + k.size + b.size + t.size) labels .loop (some k.entry) next
  obtain ⟨cs, hlen, hsuf, h⟩ := h (s :: c) rfl
  refine ⟨(s :: c) :: (s :: c) :: List.replicate k.size (s :: c) ++ cs ++
      List.replicate t.size (s :: c) ++ c :: List.replicate i.size c, by
    simp [Fragment.headLoop, hlen], by simp [hsuf.below, allAbove_replicate],
    fun plan M hcode hM hs hn => ?_⟩
  simp only [Fragment.headLoop, List.cons_append, lies_cons, lies_append, hlen,
    Fragment.length_code, Option.some.injEq, List.length_append, List.length_replicate,
    ← Nat.add_assoc] at hcode hM
  obtain ⟨-, -, ⟨⟨-, hb⟩, -⟩, henter, -⟩ := hcode
  obtain ⟨hexit, hjump, ⟨⟨hMk, hMb⟩, hMt⟩, hM', hMi⟩ := hM
  have hstep : k.FitsIn p plan M (s :: c) (base + 2) := by
    subst hk
    exact step_fitsIn (hu.fitsIn p plan hjump) (lies_replicate hMk)
  have hsl : Context.Sound plan M (s :: c) :=
    loop_sound henter hM' hn (fun a ha => by cases ha; exact hstep.entry) (fun _ => rfl) hs
  obtain ⟨hentry, hfits⟩ := h plan M hb hMb hsl hstep.entry
  simp only [List.mem_singleton, forall_eq] at hentry
  have ht := ht.fitsIn p plan hentry hexit (lies_replicate hMt)
  have hi := hi.fitsIn p plan hM' (lies_replicate hMi)
  refine ⟨by simpa [Fragment.headLoop] using hi.entry, ?_⟩
  simp only [Fragment.headLoop, List.cons_append, codeFits_cons, codeFits_append,
    List.length_append, Fragment.length_code, ← Nat.add_assoc, hexit, hjump, hM', hsl, hs,
    Instr.Suits, Instr.Fits, hn, ht.entry, true_and]
  exact ⟨⟨_, _, _, _, _, rfl⟩, ⟨⟨hstep.code hsl, hfits⟩, ht.code hsl⟩, rfl, hi.code hs⟩

/-- All code that stands before the origin of a frame and runs above it is inside that frame. -/
theorem inside_of_lies {M : StackMap} {cs : List Context} {o ip : Nat}
    (h : M.Lies base (cs ++ [c])) (ho : base + cs.length = o)
    (hcs : ∀ d ∈ cs, ∃ s : Site, s.frameOrigin? = some o ∧ s :: c <:+ d) (hl : base ≤ ip)
    (hr : ip < o) : Inside M ip o := by
  obtain ⟨hcode, hM, -⟩ := (lies_append ..).1 h
  rw [ho, Option.some.injEq] at hM
  refine ⟨hr, fun k hk hko => ?_⟩
  rw [hM]
  exact lies_all hcode hcs (by omega) (by omega)

theorem iteration_mappable {labels : List String} {target : ForTarget} {subject : Expr}
    {isAsync overKeys : Bool} {b : Fragment}
    (h : ∀ d : Context, d.breakables = ⟨labels, .loop⟩ :: c.breakables →
      Mappable p d (base + 4) b [b.entry] fun M => M (base + 3) = d) :
    Mappable p c base (.iteration base next labels target subject isAsync overKeys b)
      [(Fragment.iteration base next labels target subject isAsync overKeys b).entry]
      fun M => M next = c := by
  let o := base + 4 + b.size + 2
  let s := Site.loop (base + 4 + b.size + 1) labels .loop (some (base + 2)) (base + 4 + b.size)
  obtain ⟨cs, hlen, hsuf, h⟩ := h (.scope :: s :: .iterator o :: c) rfl
  let inner : List Context := (.iterator o :: c) :: (s :: .iterator o :: c) ::
    (s :: .iterator o :: c) :: (.scope :: s :: .iterator o :: c) :: cs ++
      [.iterator o :: c, .iterator o :: c]
  have habove : AllAbove (.iterator o :: c) inner := by
    have := hsuf.below (c := .iterator o :: c) ⟨[.scope, s], rfl⟩
    have hs : Site.iterator o :: c <:+ .scope :: s :: .iterator o :: c := ⟨[.scope, s], rfl⟩
    simp [inner, this, hs]
  refine ⟨inner ++ [c], by simp [Fragment.iteration, inner, hlen], ?_,
    fun plan M hcode hM hs hn => ?_⟩
  · simp [habove.below]
  · have hinside : ∀ ip, base ≤ ip → ip < o → Inside M ip o := fun ip =>
      inside_of_lies hM (by simp [inner, hlen, o]; omega) fun d hd => ⟨.iterator o, rfl, habove d hd⟩
    simp only [Fragment.iteration, inner, List.cons_append, lies_cons, lies_append, hlen,
      Fragment.length_code, Option.some.injEq, lies_nil, and_true, List.append_assoc,
      List.nil_append] at hcode hM
    obtain ⟨-, hleft, hnext, -, hb, -, henter, hopen⟩ := hcode
    have hends : plan.EndsLoop base := ⟨hleft, _, _, _, _, hnext⟩
    obtain ⟨hexit, hleave, hmove, hpop, hMb, hclose, hM', hMo⟩ := hM
    have hsi : Context.Sound plan M (.iterator o :: c) := ⟨⟨⟨_, _, _, _, hopen⟩, hMo⟩, hs⟩
    have hsl : Context.Sound plan M (s :: .iterator o :: c) :=
      loop_sound henter hM' hclose (fun a ha => by cases ha; exact hmove) (fun _ => rfl) hsi
    obtain ⟨hentry, hfits⟩ := h plan M hb hMb ⟨trivial, hsl⟩ hpop
    simp only [List.mem_singleton, forall_eq] at hentry
    refine ⟨by simpa [Fragment.iteration] using hMo, ?_⟩
    simp only [Fragment.iteration, List.cons_append, codeFits_cons, codeFits_append, codeFits_nil,
      Fragment.length_code, hexit, hleave, hmove, hpop, hM', hclose, hMo, hsl, hsi, hs, hfits,
      Instr.Suits, Instr.Fits, hn, hentry, and_true, true_and]
    exact ⟨⟨fun _ _ _ => hends, _, _, rfl, rfl, (by rintro ⟨⟩), hinside _ (by omega) (by omega)⟩,
      ⟨_, _, _, _, _, rfl⟩,
      ⟨_, _, _, _, _, _, _, rfl⟩, ⟨trivial, hsl⟩,
      ⟨_, _, rfl, rfl, (by rintro ⟨⟩), hinside _ (by omega) (by omega)⟩, rfl, rfl⟩

theorem mappable_append {f g : Fragment} {entries entries' : List Nat}
    {needs needs' : StackMap → Prop} (hf : Mappable p c base f entries needs)
    (hg : Mappable p c (base + f.size) g entries' needs')
    (hn : ∀ M, needs M → (∀ a ∈ entries, M a = c) → needs' M) (entry : Nat) :
    Mappable p c base ⟨f.code ++ g.code, entry⟩ (entries ++ entries') needs := by
  obtain ⟨cs, hlen, hsuf, hf⟩ := hf
  obtain ⟨ds, hlen', hsuf', hg⟩ := hg
  refine ⟨cs ++ ds, by simp [hlen, hlen'], by simp [hsuf, hsuf'], fun plan M hcode hM hs h => ?_⟩
  simp only [lies_append, hlen, Fragment.length_code] at hcode hM
  obtain ⟨hentry, hfits⟩ := hf plan M hcode.1 hM.1 hs h
  obtain ⟨hentry', hfits'⟩ := hg plan M hcode.2 hM.2 hs (hn M h hentry)
  exact ⟨by simpa [or_imp, forall_and] using ⟨hentry, hentry'⟩, by simp [hfits, hfits']⟩

theorem Mappable.mono {f g : Fragment} {entries entries' : List Nat} {needs : StackMap → Prop}
    (h : Mappable p c base f entries needs) (hcode : g.code = f.code)
    (he : ∀ a ∈ entries', a ∈ entries) : Mappable p c base g entries' needs := by
  obtain ⟨cs, hlen, hsuf, h⟩ := h
  refine ⟨cs, by rw [hlen, Fragment.size, Fragment.size, hcode], hsuf,
    fun plan M hcode' hM hs hn => ?_⟩
  rw [hcode] at hcode' ⊢
  obtain ⟨hentry, hfits⟩ := h plan M hcode' hM hs hn
  exact ⟨fun a ha => hentry a (he a ha), hfits⟩

theorem finalizer_mappable {f : Fragment} {o : Nat} {t e : Option Nat}
    (h : Mappable p (.region o t e .finalizer :: c) (base + 1) f [f.entry]
      fun M => M base = .region o t e .finalizer :: c) :
    Mappable p (.region o t e .finalizer :: c) base ⟨.endFinally next :: f.code, next⟩ [f.entry]
      fun M => M next = c ∧ Inside M base o := by
  obtain ⟨cs, hlen, hsuf, h⟩ := h
  refine ⟨(.region o t e .finalizer :: c) :: cs, by simp [hlen], by simp [hsuf],
    fun plan M hcode hM hs hn => ?_⟩
  simp only [lies_cons, Option.some.injEq] at hcode hM
  obtain ⟨hentry, hfits⟩ := h plan M hcode.2 hM.2 hs hM.1
  refine ⟨hentry, ?_⟩
  simp only [codeFits_cons, hM.1, hs, hfits, Instr.Suits, Instr.Fits, hn.1, and_true, true_and]
  exact ⟨o, t, e, rfl, hn.2⟩

theorem handler_mappable {param : Option Pattern} {f : Fragment} {o : Nat} {t e : Option Nat}
    (h : Mappable p (.scope :: .region o t e .handler :: c) (base + 2) f [f.entry]
      fun M => M (base + 1) = .scope :: .region o t e .handler :: c) :
    Mappable p (.region o t e .handler :: c) base
      ⟨.exitTry next false :: .popScope base :: f.code ++ [.bindCatch param f.entry], next⟩
      [base + 2 + f.size] fun M => M next = c ∧ Inside M base o := by
  obtain ⟨cs, hlen, hsuf, h⟩ := h
  refine ⟨(.region o t e .handler :: c) :: (.scope :: .region o t e .handler :: c) :: cs ++
    [.region o t e .handler :: c], by simp [hlen], by simp [hsuf.below],
    fun plan M hcode hM hs hn => ?_⟩
  simp only [List.cons_append, lies_cons, lies_append, hlen, Fragment.length_code,
    Option.some.injEq, lies_nil, and_true] at hcode hM
  obtain ⟨-, -, hcode, -⟩ := hcode
  obtain ⟨hexit, hpop, hM, hbind⟩ := hM
  obtain ⟨hentry, hfits⟩ := h plan M hcode hM ⟨trivial, hs⟩ hpop
  simp only [List.mem_singleton, forall_eq] at hentry
  refine ⟨by simpa using hbind, ?_⟩
  simp only [List.cons_append, codeFits_cons, codeFits_append, codeFits_nil, Fragment.length_code,
    hexit, hpop, hbind, hs, Instr.Suits, Instr.Fits, hn.1, hentry, and_true, true_and]
  exact ⟨⟨nofun, _, _, rfl, rfl, nofun, hn.2⟩, ⟨trivial, hs⟩, hfits⟩

theorem protect_mappable {onThrow onExit : Option Nat} {f h b : Fragment}
    (hf : ∀ o t e, Mappable p (.region o t e .finalizer :: c) base f onExit.toList
      fun M => M next = c ∧ Inside M base o)
    (hh : ∀ o t e, Mappable p (.region o t e .handler :: c) (base + f.size) h onThrow.toList
      fun M => M next = c ∧ Inside M (base + f.size) o)
    (hb : ∀ d : Context, d.breakables = c.breakables →
      Mappable p d (base + f.size + h.size + 1) b [b.entry] fun M => M (base + f.size + h.size) = d) :
    Mappable p c base (.protect base next onThrow onExit f h b)
      [(Fragment.protect base next onThrow onExit f h b).entry] fun M => M next = c := by
  let o := base + f.size + h.size + 1 + b.size
  let r (stage : Stage) : Site := .region o onThrow onExit stage
  obtain ⟨fs, hlenf, hsuff, hf⟩ := hf o onThrow onExit
  obtain ⟨hs, hlenh, hsufh, hh⟩ := hh o onThrow onExit
  obtain ⟨bs, hlenb, hsufb, hb⟩ := hb (r .body :: c) rfl
  let inner : List Context := fs ++ hs ++ (r .body :: c) :: bs
  refine ⟨inner ++ [c], by simp [Fragment.protect, inner, hlenf, hlenh, hlenb],
    by simp [inner, hsuff.below, hsufh.below, hsufb.below], fun plan M hcode hM hs hn => ?_⟩
  have habove : ∀ d ∈ inner, ∃ s : Site, s.frameOrigin? = some o ∧ s :: c <:+ d := by
    intro d hd
    simp only [inner, List.append_assoc, List.mem_append, List.mem_cons] at hd
    obtain hd | hd | rfl | hd := hd
    · exact ⟨r .finalizer, rfl, hsuff d hd⟩
    · exact ⟨r .handler, rfl, hsufh d hd⟩
    · exact ⟨r .body, rfl, List.suffix_rfl⟩
    · exact ⟨r .body, rfl, hsufb d hd⟩
  have hinside : ∀ ip, base ≤ ip → ip < o → Inside M ip o := fun ip =>
    inside_of_lies hM (by simp [inner, hlenf, hlenh, hlenb, o]; omega) habove
  simp only [Fragment.protect, inner, List.cons_append, lies_cons, lies_append, hlenf, hlenh, hlenb,
    Fragment.length_code, Option.some.injEq, lies_nil, and_true, List.append_assoc] at hcode hM
  obtain ⟨hcf, hch, -, hcb, henter⟩ := hcode
  obtain ⟨hMf, hMh, hexit, hMb, hMo⟩ := hM
  -- the finally block leads nowhere further, the handler to it, and the body to both
  have hsf : Context.Sound plan M (r .finalizer :: c) :=
    ⟨⟨⟨_, henter⟩, hMo, (by simp), (by simp)⟩, hs⟩
  obtain ⟨hentryf, hfitsf⟩ := hf plan M hcf hMf hsf ⟨hn, hinside _ (by omega) (by omega)⟩
  have honExit : ∀ a, onExit = some a → M a = r .finalizer :: c := by simpa using hentryf
  have hsh : Context.Sound plan M (r .handler :: c) :=
    ⟨⟨⟨_, henter⟩, hMo, (by rintro ⟨⟩), fun _ => honExit⟩, hs⟩
  obtain ⟨hentryh, hfitsh⟩ := hh plan M hch hMh hsh ⟨hn, hinside _ (by omega) (by omega)⟩
  have hsb : Context.Sound plan M (r .body :: c) :=
    ⟨⟨⟨_, henter⟩, hMo, fun _ => by simpa using hentryh, fun _ => honExit⟩, hs⟩
  obtain ⟨hentryb, hfitsb⟩ := hb plan M hcb hMb hsb hexit
  simp only [List.mem_singleton, forall_eq] at hentryb
  refine ⟨by simpa [Fragment.protect] using hMo, ?_⟩
  simp only [Fragment.protect, List.cons_append, codeFits_cons, codeFits_append, codeFits_nil,
    Fragment.length_code, List.append_assoc, hexit, hMo, hfitsf, hfitsh, hfitsb, hsb, hs,
    Instr.Suits, Instr.Fits, hn, hentryb, and_true, true_and]
  exact ⟨⟨(by rintro _ _ ⟨⟩), _, _, rfl, rfl, (by rintro ⟨⟩), hinside _ (by omega) (by omega)⟩, rfl⟩

theorem switch_mappable {labels : List String} {name : String} {subject : Expr} {cases : List Case}
    {entries : List Nat} {f : Fragment}
    (h : ∀ d : Context, d.breakables = ⟨labels, .switch⟩ :: c.breakables →
      Mappable p d (base + 2) f (f.entry :: entries) fun M => M (base + 1) = d) :
    Mappable p c base (.switch base next labels name subject cases entries f)
      [(Fragment.switch base next labels name subject cases entries f).entry]
      fun M => M next = c := by
  obtain ⟨t, htests⟩ : ∃ t, buildTests name (base + 2 + f.size)
    (defaultEntry (base + 1) (cases.zip entries)) (cases.zip entries) = t := ⟨_, rfl⟩
  let s := Site.loop (base + 2 + f.size + t.size + 1) labels .switch none base
  obtain ⟨cs, hlen, hsuf, h⟩ := h (s :: .scope :: c) rfl
  have hc : c <:+ s :: .scope :: c := ⟨[s, .scope], rfl⟩
  refine ⟨(.scope :: c) :: (s :: .scope :: c) :: cs ++ List.replicate t.size (s :: .scope :: c) ++
    [s :: .scope :: c, .scope :: c, c], by simp [Fragment.switch, htests, hlen], by
    simp [hsuf.below, allAbove_replicate, hc], fun plan M hcode hM hs hn => ?_⟩
  simp only [Fragment.switch, htests, List.cons_append, lies_cons, lies_append, hlen,
    Fragment.length_code, Option.some.injEq, lies_nil, and_true, List.length_append,
    List.length_replicate, ← Nat.add_assoc] at hcode hM
  obtain ⟨-, -, ⟨hb, -⟩, -, henter, -⟩ := hcode
  obtain ⟨hpop, hexit, ⟨hMb, hMt⟩, hMe, hM', hMo⟩ := hM
  have hsl : Context.Sound plan M (s :: .scope :: c) :=
    loop_sound henter hM' hpop (by simp) (by simp) ⟨trivial, hs⟩
  obtain ⟨hentry, hfits⟩ := h plan M hb hMb hsl hexit
  have hentries : ∀ p ∈ cases.zip entries, M p.2 = s :: .scope :: c := fun p hp =>
    hentry p.2 (by simp [(List.of_mem_zip hp).2])
  have hdefault : M (defaultEntry (base + 1) (cases.zip entries)) = s :: .scope :: c := by
    rw [defaultEntry]
    split
    · rename_i hfind
      exact hentries _ (List.mem_of_find?_eq_some hfind)
    · exact hexit
  have ht : t.FitsIn p plan M (s :: .scope :: c) (base + 2 + f.size) := by
    subst htests
    exact buildTests_fitsIn p plan hdefault hentries (lies_replicate hMt)
  refine ⟨by simpa [Fragment.switch, htests] using hMo, ?_⟩
  simp only [Fragment.switch, htests, List.cons_append, codeFits_cons, codeFits_append, codeFits_nil,
    List.length_append, Fragment.length_code, ← Nat.add_assoc, hpop, hexit, hMe, hM', hMo, hsl, hs,
    Instr.Suits, Instr.Fits, hn, ht.entry, and_true, true_and]
  exact ⟨⟨trivial, hs⟩, ⟨_, _, _, _, _, rfl⟩, ⟨hfits, ht.code hsl⟩, fun _ => rfl, ⟨trivial, hs⟩, rfl⟩

end Mapping

theorem enter_breakables {around : Surroundings} {labels : List String} {kind : LoopKind}
    {c d : Context} (hc : around.breakables = c.breakables)
    (hd : d.breakables = ⟨labels, kind⟩ :: c.breakables) :
    (around.enter labels kind).breakables = d.breakables := by
  rw [hd, ← hc]
  rfl

theorem leaf_suits {p : Prop} {around : Surroundings} {M : StackMap} {c : Context} {base next : Nat}
    {s : Stmt} (hj : s.jumpIsChecked around)
    (hl : p → s.jumpsLead around.breakables [] = true) (hc : around.breakables = c.breakables)
    (hn : M next = c) (hM : M base = c) (plan : Plan) : (s.leafInstr next).Suits p plan M base := by
  have hleads : ∀ label isContinue, around.checkJump label isContinue = .ok () →
      JumpSite.leads ⟨label, isContinue, (M base).breakables⟩ = true := by
    intro label isContinue h
    have hv := checkJump_verdict around label isContinue
    rw [h, hc] at hv
    have hv := hv .breakOutside
    rw [hM]
    simpa [Fault, Refusal.isJump] using hv
  cases s with
  | brk label => exact hleads label false hj
  | cont label => exact hleads label true hj
  | ret | throw => trivial
  | _ => exact ⟨fun h => by rw [hM, ← hc]; exact hl h, hn.trans hM.symm⟩

/-- Whether every jump in a part leads to a construct around it. Labels are still to be attached to
statements that are built in pieces alone. -/
def Part.Leads (inAsync : Bool) (around : List Breakable) : Part → Prop
  | .stmt labels s =>
    s.jumpsLead around labels = true ∧ (labels = [] ∨ s.hasSuspend inAsync = true)
  | .stmts body | .block body => bodyJumpsLead around body = true
  | .alternative no => ∀ s, no = some s → s.jumpsLead around [] = true
  | .headLoop labels _ _ _ _ body | .iteration labels _ _ body _ _ =>
    body.jumpsLead (⟨labels, .loop⟩ :: around) [] = true
  | .handler clause _ => ∀ param body, clause = some (.mk param body) →
    bodyJumpsLead around body = true
  | .finalizer last _ => ∀ body, last = some body → bodyJumpsLead around body = true
  | .cases cs _ => casesJumpsLead around cs = true

section Leads

variable {around : List Breakable} {labels : List String}

theorem leads_enclosed {s : Stmt} (hl : labels ≠ []) (he : s.isEnclosed = true)
    (h : s.jumpsLead around labels = true) :
    s.jumpsLead (⟨labels, .block⟩ :: around) [] = true := by
  have henc : ⟨labels, .block⟩ :: around = enclosed around labels := by simp [enclosed, hl]
  rw [henc]
  cases s with
  | block | expr => exact h
  | ifElse test yes no => cases no <;> exact h
  | tryCatch body clause last => rcases clause with _ | ⟨param, b⟩ <;> cases last <;> exact h
  | _ => cases he

theorem leads_ifElse {test : Expr} {yes : Stmt} {no : Option Stmt}
    (h : (Stmt.ifElse test yes no).jumpsLead around [] = true) :
    yes.jumpsLead around [] = true ∧ ∀ s, no = some s → s.jumpsLead around [] = true := by
  cases no with
  | none => exact ⟨h, nofun⟩
  | some n =>
    obtain ⟨hy, hn⟩ := Bool.and_eq_true_iff.1 h
    exact ⟨hy, fun s hs => Option.some.inj hs ▸ hn⟩

theorem leads_tryCatch {block : List Stmt} {clause : Option Catch} {last : Option (List Stmt)}
    (h : (Stmt.tryCatch block clause last).jumpsLead around [] = true) :
    bodyJumpsLead around block = true ∧
      (∀ param body, clause = some (.mk param body) → bodyJumpsLead around body = true) ∧
      ∀ body, last = some body → bodyJumpsLead around body = true := by
  rcases clause with _ | ⟨param, body⟩ <;> cases last <;>
    simp only [Stmt.jumpsLead, enclosed, List.isEmpty_nil, ↓reduceIte, Bool.and_eq_true] at h <;>
    simp [h]

end Leads

theorem Laid.mappable {p : Prop} {around : Surroundings} {base next : Nat} {part : Part}
    {f : Fragment} (h : Laid around base next part f) :
    (p → part.Leads around.inAsync around.breakables) →
    ∀ c : Context, around.breakables = c.breakables → part.Mappable p c base next f := by
  induction h with
  | @leaf _ _ _ labels _ hs hj =>
    intro hl c hc
    refine mappable_one fun plan M hn hM => leaf_suits hj (fun h => ?_) hc hn hM plan
    obtain ⟨h, rfl | hsusp⟩ := hl h
    · exact h
    · simp [hs] at hsusp
  | labeled hs _ ih => exact fun hl => ih fun h => ⟨(hl h).1, .inr hs⟩
  | blockStmt _ _ ih => exact fun hl => ih fun h => (hl h).1
  | alternative _ ih => exact fun hl => ih fun h => ⟨hl h _ rfl, .inl rfl⟩
  | forPlain _ _ _ ih | forIn _ _ ih | forOf _ _ ih => exact fun hl => ih fun h => (hl h).1
  | enclosed _ he hne _ ih =>
    exact fun hl c hc => enclose_mappable fun d hd =>
      ih (fun h => ⟨leads_enclosed hne he (hl h).1, .inl rfl⟩) d (enter_breakables hc hd)
  | expr _ he => exact fun _ c hc => mappable_flat fun plan M => he.fitsIn p plan
  | @ifElse _ base _ _ _ no n y t _ _ _ ht ihn ihy =>
    intro hl c hc
    have hyn := mappable_append (ihn (fun h => (leads_ifElse (hl h).1).2) c hc)
      (ihy (fun h => ⟨(leads_ifElse (hl h).1).1, .inl rfl⟩) c hc)
      (fun M hn _ => hn) y.entry
    have ht : Mappable p c (base + (n.code ++ y.code).length) t [t.entry]
        fun M => M y.entry = c ∧ M n.entry = c := by
      simp only [List.length_append, Fragment.length_code, ← Nat.add_assoc]
      exact mappable_flat fun plan M hM => ht.fitsIn p plan hM.1 hM.2
    have h := mappable_append hyn ht (fun M _ he => ⟨he _ (by simp), he _ (by simp)⟩) t.entry
    exact h.mono rfl (by simp)
  | whileDo _ _ ht ih =>
    exact fun hl c hc => testLoop_mappable
      (fun d hd => ih (fun h => ⟨(hl h).1, .inl rfl⟩) d (enter_breakables hc hd)) ht (.inl rfl)
  | doWhile _ _ ht ih =>
    exact fun hl c hc => testLoop_mappable
      (fun d hd => ih (fun h => ⟨(hl h).1, .inl rfl⟩) d (enter_breakables hc hd)) ht (.inr rfl)
  | forScoped _ _ _ ih =>
    exact fun hl c hc => inScope_mappable (ih (fun h => (hl h).1) (.scope :: c) hc)
  | headLoop hu hk _ ht hi ih =>
    exact fun hl c hc => headLoop_mappable hu hk
      (fun d hd => ih (fun h => ⟨hl h, .inl rfl⟩) d (enter_breakables hc hd)) ht hi
  | iteration _ ih =>
    exact fun hl c hc => iteration_mappable fun d hd =>
      ih (fun h => ⟨hl h, .inl rfl⟩) d (enter_breakables hc hd)
  | tryCatch _ _ _ _ ihf ihh ihb =>
    intro hl c hc
    have hl h := leads_tryCatch (hl h).1
    exact protect_mappable (ihf (fun h => (hl h).2.2) c hc) (ihh (fun h => (hl h).2.1) c hc)
      fun d hd => ihb (fun h => (hl h).1) d (hc.trans hd.symm)
  | switch _ _ ih =>
    exact fun hl c hc => switch_mappable fun d hd =>
      ih (fun h => (hl h).1) d (enter_breakables hc hd)
  | block _ ih => exact fun hl c hc => inScope_mappable (ih hl (.scope :: c) hc)
  | noAlternative | nil | noCase => exact fun _ c hc => mappable_skip rfl
  | noFinalizer | noHandler => exact fun _ c hc o t e => mappable_empty
  | finalizer _ ih =>
    exact fun hl c hc o t e => finalizer_mappable (ih (fun h => hl h _ rfl) _ hc)
  | handler _ ih =>
    exact fun hl c hc o t e => handler_mappable (ih (fun h => hl h _ _ rfl) _ hc)
  | cons _ _ ih ih' =>
    intro hl c hc
    have hl h := Bool.and_eq_true_iff.1 (hl h)
    have h := mappable_append (ih (fun h => (hl h).2) c hc)
      (ih' (fun h => ⟨(hl h).1, .inl rfl⟩) c hc) (fun M _ he => he _ (by simp)) 0
    exact h.mono rfl (by simp)
  | case _ _ ih ih' =>
    intro hl c hc
    have hl h := Bool.and_eq_true_iff.1 (hl h)
    have h := mappable_append (ih (fun h => (hl h).2) c hc) (ih' (fun h => (hl h).1) c hc)
      (fun M _ he => he _ (by simp)) 0
    exact h.mono rfl (by simp +contextual)

/-- Whether a map gives the contexts of a whole plan. -/
structure StackMap.Maps (M : StackMap) (plan : Plan) : Prop where
  entry : M plan.entry = []
  sound : ∀ ip, (M ip).Sound plan M
  fits : ∀ ip i, plan.get? ip = some i → i.Fits M ip

theorem buildPlan_suited {inAsync : Bool} {params : List Pattern} {body : List Stmt} {plan : Plan}
    (h : buildPlan inAsync params body = .ok plan) :
    ∃ M : StackMap, M.Maps plan ∧ ∀ ip i, plan.get? ip = some i →
      i.Suits (bodyJumpsLead [] body = true) plan M ip := by
  obtain ⟨lowered, f, hlower, hlaid, hcode, hentry⟩ := buildPlan_laid h
  obtain ⟨cs, hlen, -, h⟩ := hlaid.mappable
    (p := bodyJumpsLead [] body = true) (fun h => (lowerBody_jumpsLead hlower []).trans h) [] rfl
  -- the final `return` stands alone at the bottom, with nothing on the stacks
  let M : StackMap := fun k => (([] :: cs)[k]?).getD []
  have hM : M.Lies 0 ([] :: cs) := lies_of_getElem _ _ _ fun k c hk => by simp [M, hk]
  have hplan : Lies plan.get? 0 plan.code := lies_of_getElem _ _ _ fun k i hk => by
    simpa [Plan.get?] using hk
  rw [hcode] at hplan
  obtain ⟨he, hfits⟩ := h plan M hplan.2 hM.2 trivial rfl
  have hfits : CodeFits (bodyJumpsLead [] body = true) plan M 0 plan.code := by
    rw [hcode]
    exact ⟨⟨trivial, trivial⟩, hfits⟩
  have hget : ∀ ip i, plan.get? ip = some i →
      (M ip).Sound plan M ∧ i.Suits (bodyJumpsLead [] body = true) plan M ip := fun ip i hi => by
    simpa using codeFits_get plan M 0 ip plan.code i hfits hi
  refine ⟨M, ⟨by simpa [hentry] using he, fun ip => ?_, fun ip i hi => (hget ip i hi).2.fits⟩,
    fun ip i hi => (hget ip i hi).2⟩
  cases hi : plan.get? ip with
  | some i => exact (hget ip i hi).1
  | none =>
    have hout : ([] :: cs).length ≤ ip := by simpa [Plan.get?, hcode, hlen] using hi
    simp [M, List.getElem?_eq_none hout, Context.Sound]

theorem buildPlan_mapped_leading {inAsync : Bool} {params : List Pattern} {body : List Stmt}
    {plan : Plan} (h : buildPlan inAsync params body = .ok plan) :
    ∃ M : StackMap, M.Maps plan ∧ ∀ ip s next, plan.get? ip = some (.evaluate s next) →
      bodyJumpsLead [] body = true → s.jumpsLead (M ip).breakables [] = true :=
  (buildPlan_suited h).imp fun _ hM => ⟨hM.1, fun ip _ _ hi => (hM.2 ip _ hi).1⟩

theorem buildPlan_mapped {inAsync : Bool} {params : List Pattern} {body : List Stmt} {plan : Plan}
    (h : buildPlan inAsync params body = .ok plan) : ∃ M : StackMap, M.Maps plan :=
  (buildPlan_suited h).imp fun _ hM => hM.1

end Resumable
