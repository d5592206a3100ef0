import Resumable.Proofs.Plan.StackMap

/-!
Positions that only some instructions lead to: where a loop over an iterator goes when the iterator has
no more elements, and what a loop with bindings of its own runs between two turns. Main statement:
`buildPlan_coloured`: such positions can be coloured in every plan that is built.
-/

set_option autoImplicit false

namespace Resumable

/-- What a position is for that is not free to all. -/
inductive Colour where
  | ended
  | between (start : Nat)
  deriving DecidableEq

abbrev Colours := Nat → Option Colour

/-- Whether an instruction leads to coloured positions only from the end of an iterator on, or from the
copy of the bindings of a loop up to the jump with which its next turn begins. The loop of a copy is
continued at the copy, and the scope that is copied is closed where the loop is left. -/
@[simp] def Instr.Respects (plan : Plan) (C : Colours) (ip : Nat) : Instr → Prop
  | .moveNext _ _ body exit _ => C ip = none ∧ C body = none ∧ C exit = some .ended
  | .exitLoop next => (C ip = none ∨ C ip = some .ended) ∧ C next = C ip
  | .exitTry next close =>
    (C ip = none ∨ C ip = some .ended) ∧ C next = none ∧ (close = true → C ip = none)
  | .enterLoop _ _ onContinue onBreak next =>
    C ip = none ∧ C onBreak = none ∧ (∀ a, onContinue = some a → C a = none) ∧
      (C next = none ∨ C next = some (.between next))
  | .copyScope next => C ip = none ∧ ∃ o labels onBreak start past head,
      plan.get? o = some (.enterLoop labels .loop (some ip) onBreak start) ∧
      plan.get? onBreak = some (.popScope past) ∧ plan.get? start = some (.jump head) ∧
      C start = some (.between start) ∧ C next = some (.between start)
  | .jump target => (C ip = none ∨ C ip = some (.between ip)) ∧ C target = none
  | .evaluate (.expr _) next | .yield _ next | .yieldStar _ next | .await _ next | .store _ next =>
    C ip ≠ some .ended ∧ C next = C ip
  | i => C ip = none ∧ ∀ a ∈ i.targets, C a = none

/-- Whether the instructions at a position respect the colours. -/
def CodeRespects (plan : Plan) (C : Colours) : Nat → List Instr → Prop
  | _, [] => True
  | ip, i :: code => i.Respects plan C ip ∧ CodeRespects plan C (ip + 1) code

section Code

variable (plan : Plan) (C : Colours)

@[simp] theorem codeRespects_nil (ip : Nat) : CodeRespects plan C ip [] := trivial

@[simp] theorem codeRespects_cons (ip : Nat) (i : Instr) (code : List Instr) :
    CodeRespects plan C ip (i :: code) ↔
      i.Respects plan C ip ∧ CodeRespects plan C (ip + 1) code := Iff.rfl

@[simp] theorem codeRespects_append (ip : Nat) (c d : List Instr) :
    CodeRespects plan C ip (c ++ d) ↔
      CodeRespects plan C ip c ∧ CodeRespects plan C (ip + c.length) d := by
  induction c generalizing ip with
  | nil => simp
  | cons i c ih =>
    simp only [List.cons_append, codeRespects_cons, ih, List.length_cons, and_assoc]
    rw [show ip + 1 + c.length = ip + (c.length + 1) by omega]

theorem codeRespects_get (ip k : Nat) (code : List Instr) (i : Instr)
    (h : CodeRespects plan C ip code) (hk : code[k]? = some i) : i.Respects plan C (ip + k) := by
  induction code generalizing ip k with
  | nil => simp at hk
  | cons j code ih =>
    cases k with
    | zero =>
      simp only [List.getElem?_cons_zero, Option.some.injEq] at hk
      subst hk
      exact h.1
    | succ k =>
      have h := ih (ip + 1) k h.2 (by simpa using hk)
      rwa [show ip + 1 + k = ip + (k + 1) by omega] at h

end Code

/-- Whether the colour is the same from one position on, over a length. -/
def Colours.FlatOn (C : Colours) (c : Option Colour) (base size : Nat) : Prop :=
  ∀ k, base ≤ k → k < base + size → C k = c

theorem Colours.FlatOn.sub {C : Colours} {c : Option Colour} {base size base' size' : Nat}
    (h : C.FlatOn c base size) (hl : base ≤ base') (hr : base' + size' ≤ base + size) :
    C.FlatOn c base' size' :=
  fun k hk hk' => h k (by omega) (by omega)

theorem lies_flat {C : Colours} {c : Option Colour} {base size : Nat}
    (h : Lies (fun k => some (C k)) base (List.replicate size c)) : C.FlatOn c base size := by
  induction size generalizing base with
  | zero =>
    intro k hl hr
    omega
  | succ size ih =>
    obtain ⟨hb, h⟩ := h
    intro k hl hr
    by_cases hk : base = k
    · subst hk
      exact Option.some.inj hb
    · exact ih h k (by omega) (by omega)

/-- Whether a fragment is entered at a position of this colour and respects the colours. -/
structure Fragment.RespectsIn (plan : Plan) (C : Colours) (c : Option Colour) (base : Nat)
    (f : Fragment) : Prop where
  entry : C f.entry = c
  code : CodeRespects plan C base f.code

section Flat

variable {inAsync : Bool} {plan : Plan} {C : Colours} {c : Option Colour}

theorem skip_respectsIn {base next : Nat} (hn : C next = c) :
    (Fragment.skip next).RespectsIn plan C c base := ⟨hn, trivial⟩

theorem suspendInstr_respects {e : Expr} {ip store : Nat} {i : Instr}
    (h : e.suspendInstr? store = some i) (hip : C ip ≠ some .ended) (hs : C store = C ip) :
    i.Respects plan C ip := by
  rw [Expr.suspendInstr?.eq_def] at h
  split at h
  all_goals
    cases h
    try exact ⟨hip, hs⟩

theorem effects_respectsIn {base next : Nat} {es : List Expr} {f : Fragment}
    (h : EffectsLaid inAsync base next es f) (hc : c ≠ some .ended) (hn : C next = c)
    (hC : C.FlatOn c base f.size) : f.RespectsIn plan C c base := by
  induction h with
  | nil => exact skip_respectsIn hn
  | @plain base next e es rest _ _ ih =>
    simp only [Fragment.size_mk, List.length_append, Fragment.length_code,
      List.length_singleton] at hC
    have hrest := ih hn (hC.sub (by omega) (by omega))
    have hi := hC (base + rest.size) (by omega) (by omega)
    exact ⟨hi, by simp [hrest.code, hi, hc, hrest.entry]⟩
  | @suspend base next e d slot es rest i _ _ _ _ hi ih =>
    simp only [Fragment.size_mk, List.length_append, Fragment.length_code, List.length_cons,
      List.length_nil] at hC
    have hrest := ih hn (hC.sub (by omega) (by omega))
    have hstore := hC (base + rest.size) (by omega) (by omega)
    have hsuspend := hC (base + rest.size + 1) (by omega) (by omega)
    have hrespects : i.Respects plan C (base + rest.size + 1) :=
      suspendInstr_respects hi (hsuspend ▸ hc) (hstore.trans hsuspend.symm)
    refine ⟨hsuspend, (codeRespects_append ..).2 ⟨hrest.code, ?_, hrespects, trivial⟩⟩
    exact ⟨fun hended => hc (hstore.symm.trans hended), hrest.entry.trans hstore.symm⟩
  | seq _ _ _ ih ih' =>
    simp only [Fragment.size_mk, List.length_append, Fragment.length_code] at hC
    have hrest := ih hn (hC.sub (by omega) (by omega))
    have hfirst := ih' hrest.entry (hC.sub (by omega) (by omega))
    exact ⟨hfirst.entry, by simp [hrest.code, hfirst.code]⟩

theorem condition_respectsIn {base onTrue onFalse : Nat} {e : Expr} {f : Fragment}
    (h : ConditionLaid inAsync base onTrue onFalse e f) (ht : C onTrue = none)
    (hf : C onFalse = none) (hC : C.FlatOn none base f.size) : f.RespectsIn plan C none base := by
  cases h with
  | plain _ =>
    have hi := hC base (by omega) (by simp [Fragment.one])
    exact ⟨hi, by simp [Fragment.one, hi, ht, hf]⟩
  | @seq _ _ first _ _ hfirst =>
    simp only [Fragment.size_mk, List.length_cons, Fragment.length_code] at hC
    have hi := hC base (by omega) (by omega)
    have hfirst : first.RespectsIn plan C none (base + 1) :=
      effects_respectsIn hfirst (by simp) hi (hC.sub (by omega) (by omega))
    exact ⟨hfirst.entry, by simp [hi, ht, hf, hfirst.code]⟩

theorem test_respectsIn {base onTrue onFalse : Nat} {e : Option Expr} {f : Fragment}
    (h : TestLaid inAsync base onTrue onFalse e f) (ht : C onTrue = none) (hf : C onFalse = none)
    (hC : C.FlatOn none base f.size) : f.RespectsIn plan C none base := by
  cases h with
  | none => exact skip_respectsIn ht
  | some h => exact condition_respectsIn h ht hf hC

theorem update_respectsIn {base next : Nat} {e : Option Expr} {f : Fragment}
    (h : UpdateLaid inAsync base next e f) (hc : c ≠ some .ended) (hn : C next = c)
    (hC : C.FlatOn c base f.size) : f.RespectsIn plan C c base := by
  cases h with
  | none => exact skip_respectsIn hn
  | some h => exact effects_respectsIn h hc hn hC

theorem init_respectsIn {base next : Nat} {init : ForInit} {f : Fragment}
    (h : InitLaid inAsync base next init f) (hn : C next = none)
    (hC : C.FlatOn none base f.size) : f.RespectsIn plan C none base := by
  cases h with
  | absent => exact skip_respectsIn hn
  | expr h => exact effects_respectsIn h (by simp) hn hC
  | declare _ =>
    have hi := hC base (by omega) (by simp [Fragment.one])
    exact ⟨hi, by simp [Fragment.one, hi, hn]⟩

theorem buildTests_respectsIn {subject : String} {base otherwise : Nat} {cases : List (Case × Nat)}
    (ho : C otherwise = none) (hc : ∀ p ∈ cases, C p.2 = none)
    (hC : C.FlatOn none base (buildTests subject base otherwise cases).size) :
    (buildTests subject base otherwise cases).RespectsIn plan C none base := by
  induction cases with
  | nil =>
    have hi := hC base (by omega) (by simp [buildTests, Fragment.one])
    exact ⟨hi, by simp [buildTests, Fragment.one, hi, ho]⟩
  | cons p cases ih =>
    obtain ⟨⟨test, body⟩, entry⟩ := p
    have hentry := hc (.mk test body, entry) (by simp)
    have ih := ih fun q hq => hc q (by simp [hq])
    simp only [buildTests, Case.test] at hC ⊢
    cases test with
    | none => exact ih hC
    | some e =>
      simp only [Fragment.close, Fragment.size_mk, List.length_append, Fragment.length_code,
        List.length_singleton] at hC ⊢
      have ih := ih (hC.sub (by omega) (by omega))
      have hi := hC (base + (buildTests subject base otherwise cases).size) (by omega) (by omega)
      exact ⟨hi, by simp [ih.code, hi, hentry, ih.entry]⟩

end Flat

/-- Whether a fragment can be coloured: wherever the colours stand so that a need is met, the fragment is
entered at positions without a colour, and its code respects the colours. -/
def Colourable (base : Nat) (f : Fragment) (entries : List Nat) (needs : Plan → Colours → Prop) :
    Prop :=
  ∃ cs : List (Option Colour), cs.length = f.size ∧ ∀ (plan : Plan) (C : Colours),
    Lies plan.get? base f.code → Lies (fun k => some (C k)) base cs → needs plan C →
    (∀ a ∈ entries, C a = none) ∧ CodeRespects plan C base f.code

/-- Whether the code of a part can be coloured. A loop with bindings of its own is left for where their
scope is closed. -/
def Part.Colourable (base next : Nat) (f : Fragment) : Part → Prop
  | .handler _ onThrow => Resumable.Colourable base f onThrow.toList fun _ C => C next = none
  | .finalizer _ onExit => Resumable.Colourable base f onExit.toList fun _ C => C next = none
  | .cases _ entries => Resumable.Colourable base f (f.entry :: entries) fun _ C => C next = none
  | .headLoop _ ownScope _ _ _ _ => Resumable.Colourable base f [f.entry] fun plan C =>
      C next = none ∧ (ownScope = true → ∃ past, plan.get? next = some (.popScope past))
  | _ => Resumable.Colourable base f [f.entry] fun _ C => C next = none

section Colouring

variable {base next : Nat}

theorem colourable_flat {f : Fragment} {needs : Plan → Colours → Prop}
    (h : ∀ plan C, needs plan C → C.FlatOn none base f.size → f.RespectsIn plan C none base) :
    Colourable base f [f.entry] needs := by
  refine ⟨List.replicate f.size none, by simp, fun plan C _ hC hn => ?_⟩
  have hf := h plan C hn (lies_flat hC)
  exact ⟨by simpa using hf.entry, hf.code⟩

theorem colourable_skip {f : Fragment} (hf : f = .skip next) :
    Colourable base f [f.entry] fun _ C => C next = none := by
  subst hf
  exact ⟨[], rfl, fun plan C _ _ hn => ⟨by simpa [Fragment.skip] using hn, trivial⟩⟩

theorem colourable_empty {needs : Plan → Colours → Prop} : Colourable base (.skip next) [] needs :=
  ⟨[], rfl, fun _ _ _ _ _ => ⟨by simp, trivial⟩⟩

theorem colourable_leaf (s : Stmt) :
    Colourable base (.one base (s.leafInstr next)) [base] fun _ C => C next = none := by
  refine ⟨[none], rfl, fun plan C _ hC hn => ?_⟩
  obtain ⟨hb, -⟩ := hC
  have hb : C base = none := Option.some.inj hb
  refine ⟨by simpa using hb, ?_⟩
  cases s <;> simp [Fragment.one, Stmt.leafInstr, hb, hn]

theorem inScope_colourable {functions : List FunctionDecl} {f : Fragment}
    {needs : Plan → Colours → Prop} (h : Colourable (base + 1) f [f.entry] needs)
    (hneeds : ∀ plan C past, C base = none → plan.get? base = some (.popScope past) → needs plan C) :
    Colourable base (f.inScope base next functions) [(f.inScope base next functions).entry]
      fun _ C => C next = none := by
  obtain ⟨cs, hlen, h⟩ := h
  refine ⟨none :: cs ++ [none], by simp [hlen], fun plan C hcode hC hn => ?_⟩
  simp only [Fragment.inScope, List.cons_append, lies_cons, lies_append, hlen, Option.some.injEq,
    lies_nil, and_true] at hcode hC
  obtain ⟨hpop, hbody, -⟩ := hcode
  obtain ⟨hfirst, hcs, hpush⟩ := hC
  obtain ⟨hentry, hrespects⟩ := h plan C hbody hcs (hneeds plan C next hfirst hpop)
  simp only [List.mem_singleton, forall_eq] at hentry
  simp [Fragment.inScope, hfirst, hpush, hn, hentry, hrespects]

theorem enclose_colourable {labels : List String} {f : Fragment}
    (h : Colourable (base + 1) f [f.entry] fun _ C => C base = none) :
    Colourable base (f.enclose base next labels) [(f.enclose base next labels).entry]
      fun _ C => C next = none := by
  obtain ⟨cs, hlen, h⟩ := h
  refine ⟨none :: cs ++ [none], by simp [Fragment.enclose, hlen], fun plan C hcode hC hn => ?_⟩
  simp only [Fragment.enclose, List.cons_append, lies_cons, lies_append, hlen, Option.some.injEq,
    lies_nil, and_true] at hcode hC
  obtain ⟨-, hbody, -⟩ := hcode
  obtain ⟨hexit, hcs, henter⟩ := hC
  obtain ⟨hentry, hrespects⟩ := h plan C hbody hcs hexit
  simp only [List.mem_singleton, forall_eq] at hentry
  simp [Fragment.enclose, hexit, henter, hn, hentry, hrespects]

theorem testLoop_colourable {inAsync : Bool} {labels : List String} {b t : Fragment} {test : Expr}
    {start : Nat} (h : Colourable (base + 2) b [b.entry] fun _ C => C (base + 1) = none)
    (ht : ConditionLaid inAsync (base + 2 + b.size) b.entry base test t)
    (hstart : start = base + 1 ∨ start = b.entry) :
    Colourable base (.testLoop base next labels b t start)
      [(Fragment.testLoop base next labels b t start).entry] fun _ C => C next = none := by
  obtain ⟨cs, hlen, h⟩ := h
  obtain ⟨ts, hlent, ht⟩ : Colourable (base + 2 + b.size) t [t.entry]
      fun _ C => C b.entry = none ∧ C base = none :=
    colourable_flat fun plan C hC => condition_respectsIn ht hC.1 hC.2
  refine ⟨none :: none :: cs ++ ts ++ [none], by simp [Fragment.testLoop, hlen, hlent],
    fun plan C hcode hC hn => ?_⟩
  simp only [Fragment.testLoop, List.cons_append, lies_cons, lies_append, Fragment.length_code, hlen,
    hlent, Option.some.injEq, lies_nil, and_true, List.length_append, ← Nat.add_assoc] at hcode hC
  obtain ⟨-, -, ⟨hb, htest⟩, -⟩ := hcode
  obtain ⟨hexit, hjump, ⟨hcs, hts⟩, henter⟩ := hC
  obtain ⟨hentry, hrespects⟩ := h plan C hb hcs hjump
  simp only [List.mem_singleton, forall_eq] at hentry
  obtain ⟨hentryt, hrespectst⟩ := ht plan C htest hts ⟨hentry, hexit⟩
  simp only [List.mem_singleton, forall_eq] at hentryt
  have hstart : C start = none := by
    obtain rfl | rfl := hstart
    · exact hjump
    · exact hentry
  simp [Fragment.testLoop, hexit, hjump, henter, hn, hentryt, hrespects, hrespectst,
    hstart]

/-- The colours of the end of a turn: with bindings of its own, what comes after their copy is between
two turns. -/
def stepColours (ownScope : Bool) (start size : Nat) : List (Option Colour) :=
  if ownScope then List.replicate size (some (.between start)) ++ [none]
  else List.replicate size none

def jumpColour (ownScope : Bool) (start : Nat) : Option Colour :=
  if ownScope then some (.between start) else none

theorem length_stepColours {ownScope : Bool} {start : Nat} {u : Fragment} :
    (stepColours ownScope start u.size).length = (u.step ownScope base).size := by
  cases ownScope <;> simp [stepColours, Fragment.step, Fragment.close]

theorem step_respectsIn {inAsync ownScope : Bool} {start : Nat} {update : Option Expr} {u : Fragment}
    {plan : Plan} {C : Colours} (hu : UpdateLaid inAsync base start update u)
    (hC : Lies (fun k => some (C k)) base (stepColours ownScope start u.size))
    (hstart : C start = jumpColour ownScope start)
    (hloop : ownScope = true → ∃ o labels onBreak past head,
      plan.get? o = some (.enterLoop labels .loop (some (base + u.size)) onBreak start) ∧
      plan.get? onBreak = some (.popScope past) ∧ plan.get? start = some (.jump head)) :
    (u.step ownScope base).RespectsIn plan C none base := by
  cases ownScope with
  | false => exact update_respectsIn hu (by simp) hstart (lies_flat hC)
  | true =>
    simp only [stepColours, ↓reduceIte, lies_append, List.length_replicate, lies_cons,
      Option.some.injEq, lies_nil, and_true] at hC
    have hupdate : u.RespectsIn plan C (some (.between start)) base :=
      update_respectsIn hu (by simp) hstart (lies_flat hC.1)
    obtain ⟨o, labels, onBreak, past, head, henter, hpop, hjump⟩ := hloop rfl
    refine ⟨hC.2, ?_⟩
    simp only [Fragment.step, ↓reduceIte, Fragment.close, codeRespects_append, Fragment.length_code,
      codeRespects_cons, codeRespects_nil, and_true]
    exact ⟨hupdate.code, hC.2, o, labels, onBreak, start, past, head, henter, hpop, hjump, hstart,
      hupdate.entry⟩

/-- Between two turns of a loop with bindings of its own run the update and the jump to the test. -/
theorem headLoop_colourable {inAsync ownScope : Bool} {labels : List String} {u k b t i : Fragment}
    {init : ForInit} {test update : Option Expr}
    (hu : UpdateLaid inAsync (base + 2) (base + 1) update u) (hk : u.step ownScope (base + 2) = k)
    (h : Colourable (base + 2 + k.size) b [b.entry] fun _ C => C k.entry = none)
    (ht : TestLaid inAsync (base + 2 + k.size + b.size) b.entry base test t)
    (hi : InitLaid inAsync (base + 2 + k.size + b.size + t.size + 1)
      (base + 2 + k.size + b.size + t.size) init i) :
    Colourable base (.headLoop base next labels k b t i)
      [(Fragment.headLoop base next labels k b t i).entry] fun plan C =>
        C next = none ∧ (ownScope = true → ∃ past, plan.get? next = some (.popScope past)) := by
  obtain ⟨cs, hlen, h⟩ := h
  obtain ⟨ts, hlent, ht⟩ : Colourable (base + 2 + k.size + b.size) t [t.entry]
      fun _ C => C b.entry = none ∧ C base = none :=
    colourable_flat fun plan C hC => test_respectsIn ht hC.1 hC.2
  obtain ⟨is, hleni, hi⟩ : Colourable (base + 2 + k.size + b.size + t.size + 1) i [i.entry]
      fun _ C => C (base + 2 + k.size + b.size + t.size) = none :=
    colourable_flat fun plan C hC => init_respectsIn hi hC
  have hlenk : (stepColours ownScope (base + 1) u.size).length = k.size := hk ▸ length_stepColours
  refine ⟨none :: jumpColour ownScope (base + 1) :: stepColours ownScope (base + 1) u.size ++ cs ++
    ts ++ none :: is, by simp [Fragment.headLoop, hlenk, hlen, hlent, hleni],
    fun plan C hcode hC hn => ?_⟩
  simp only [Fragment.headLoop, List.cons_append, lies_cons, lies_append, Fragment.length_code, hlenk,
    hlen, hlent, Option.some.injEq, List.length_append, ← Nat.add_assoc] at hcode hC
  obtain ⟨-, hhead, ⟨⟨-, hb⟩, htest⟩, hloop, hinit⟩ := hcode
  obtain ⟨hexit, hjump, ⟨⟨hks, hcs⟩, hts⟩, henter, his⟩ := hC
  obtain ⟨hentryk, hrespectsk⟩ : k.RespectsIn plan C none (base + 2) := by
    subst hk
    refine step_respectsIn hu hks hjump fun hown => ?_
    obtain ⟨past, hpast⟩ := hn.2 hown
    subst hown
    exact ⟨_, _, _, past, _, hloop, hpast, hhead⟩
  obtain ⟨hentry, hrespects⟩ := h plan C hb hcs hentryk
  simp only [List.mem_singleton, forall_eq] at hentry
  obtain ⟨hentryt, hrespectst⟩ := ht plan C htest hts ⟨hentry, hexit⟩
  simp only [List.mem_singleton, forall_eq] at hentryt
  obtain ⟨hentryi, hrespectsi⟩ := hi plan C hinit his henter
  simp only [List.mem_singleton, forall_eq] at hentryi
  have hstart : C (base + 1) = none ∨ C (base + 1) = some (.between (base + 1)) := by
    rw [hjump]
    cases ownScope <;> simp [jumpColour]
  simp [Fragment.headLoop, hexit, hstart, henter, hn, hentryk, hentryt, hentryi,
    hrespectsk, hrespects, hrespectst, hrespectsi]

theorem iteration_colourable {labels : List String} {target : ForTarget} {subject : Expr}
    {isAsync overKeys : Bool} {b : Fragment}
    (h : Colourable (base + 4) b [b.entry] fun _ C => C (base + 3) = none) :
    Colourable base (.iteration base next labels target subject isAsync overKeys b)
      [(Fragment.iteration base next labels target subject isAsync overKeys b).entry]
      fun _ C => C next = none := by
  obtain ⟨cs, hlen, h⟩ := h
  refine ⟨some .ended :: some .ended :: none :: none :: cs ++ [none, none, none], by
    simp [Fragment.iteration, hlen], fun plan C hcode hC hn => ?_⟩
  simp only [Fragment.iteration, List.cons_append, lies_cons, lies_append, hlen, Option.some.injEq,
    lies_nil, and_true] at hcode hC
  obtain ⟨-, -, -, -, hb, -⟩ := hcode
  obtain ⟨hend, hexit, hmove, hpop, hcs, hclose, henter, hopen⟩ := hC
  obtain ⟨hentry, hrespects⟩ := h plan C hb hcs hpop
  simp only [List.mem_singleton, forall_eq] at hentry
  simp [Fragment.iteration, hend, hexit, hmove, hpop, hclose, henter,
    hopen, hn, hentry, hrespects]

theorem colourable_append {f g : Fragment} {entries entries' : List Nat}
    {needs needs' : Plan → Colours → Prop} (hf : Colourable base f entries needs)
    (hg : Colourable (base + f.size) g entries' needs')
    (hn : ∀ plan C, needs plan C → (∀ a ∈ entries, C a = none) → needs' plan C) (entry : Nat) :
    Colourable base ⟨f.code ++ g.code, entry⟩ (entries ++ entries') needs := by
  obtain ⟨cs, hlen, hf⟩ := hf
  obtain ⟨ds, hlen', hg⟩ := hg
  refine ⟨cs ++ ds, by simp [hlen, hlen'], fun plan C hcode hC h => ?_⟩
  simp only [lies_append, hlen, Fragment.length_code] at hcode hC
  obtain ⟨hentry, hrespects⟩ := hf plan C hcode.1 hC.1 h
  obtain ⟨hentry', hrespects'⟩ := hg plan C hcode.2 hC.2 (hn plan C h hentry)
  exact ⟨by simpa [or_imp, forall_and] using ⟨hentry, hentry'⟩, by simp [hrespects, hrespects']⟩

theorem Colourable.mono {f g : Fragment} {entries entries' : List Nat}
    {needs : Plan → Colours → Prop} (h : Colourable base f entries needs) (hcode : g.code = f.code)
    (he : ∀ a ∈ entries', a ∈ entries) : Colourable base g entries' needs := by
  obtain ⟨cs, hlen, h⟩ := h
  refine ⟨cs, by rw [hlen, Fragment.size, Fragment.size, hcode], fun plan C hg hC hn => ?_⟩
  rw [hcode] at hg ⊢
  obtain ⟨hentry, hrespects⟩ := h plan C hg hC hn
  exact ⟨fun a ha => hentry a (he a ha), hrespects⟩

theorem finalizer_colourable {f : Fragment}
    (h : Colourable (base + 1) f [f.entry] fun _ C => C base = none) :
    Colourable base ⟨.endFinally next :: f.code, next⟩ [f.entry] fun _ C => C next = none := by
  obtain ⟨cs, hlen, h⟩ := h
  refine ⟨none :: cs, by simp [hlen], fun plan C hcode hC hn => ?_⟩
  simp only [lies_cons, Option.some.injEq] at hcode hC
  obtain ⟨hentry, hrespects⟩ := h plan C hcode.2 hC.2 hC.1
  exact ⟨hentry, by simp [hC.1, hn, hrespects]⟩

theorem handler_colourable {param : Option Pattern} {f : Fragment}
    (h : Colourable (base + 2) f [f.entry] fun _ C => C (base + 1) = none) :
    Colourable base
      ⟨.exitTry next false :: .popScope base :: f.code ++ [.bindCatch param f.entry], next⟩
      [base + 2 + f.size] fun _ C => C next = none := by
  obtain ⟨cs, hlen, h⟩ := h
  refine ⟨none :: none :: cs ++ [none], by simp [hlen], fun plan C hcode hC hn => ?_⟩
  simp only [List.cons_append, lies_cons, lies_append, hlen, Option.some.injEq, lies_nil,
    and_true] at hcode hC
  obtain ⟨-, -, hf, -⟩ := hcode
  obtain ⟨hexit, hpop, hcs, hbind⟩ := hC
  obtain ⟨hentry, hrespects⟩ := h plan C hf hcs hpop
  simp only [List.mem_singleton, forall_eq] at hentry
  simp [hexit, hpop, hbind, hn, hentry, hrespects]

theorem protect_colourable {onThrow onExit : Option Nat} {f h b : Fragment}
    (hf : Colourable base f onExit.toList fun _ C => C next = none)
    (hh : Colourable (base + f.size) h onThrow.toList fun _ C => C next = none)
    (hb : Colourable (base + f.size + h.size + 1) b [b.entry]
      fun _ C => C (base + f.size + h.size) = none) :
    Colourable base (.protect base next onThrow onExit f h b)
      [(Fragment.protect base next onThrow onExit f h b).entry] fun _ C => C next = none := by
  obtain ⟨fs, hlenf, hf⟩ := hf
  obtain ⟨hs, hlenh, hh⟩ := hh
  obtain ⟨bs, hlenb, hb⟩ := hb
  refine ⟨fs ++ hs ++ none :: bs ++ [none], by simp [Fragment.protect, hlenf, hlenh, hlenb],
    fun plan C hcode hC hn => ?_⟩
  simp only [Fragment.protect, List.append_assoc, List.cons_append, lies_cons, lies_append, hlenf,
    hlenh, hlenb, Fragment.length_code, Option.some.injEq, lies_nil, and_true] at hcode hC
  obtain ⟨hcf, hch, -, hcb, -⟩ := hcode
  obtain ⟨hfs, hhs, hexit, hbs, henter⟩ := hC
  obtain ⟨hentryf, hrespectsf⟩ := hf plan C hcf hfs hn
  obtain ⟨hentryh, hrespectsh⟩ := hh plan C hch hhs hn
  obtain ⟨hentryb, hrespectsb⟩ := hb plan C hcb hbs hexit
  simp only [List.mem_singleton, forall_eq] at hentryb
  simp only [Option.mem_toList] at hentryf hentryh
  simpa [Fragment.protect, hexit, henter, hn, hentryb, hrespectsf,
    hrespectsh, hrespectsb, or_imp, forall_and] using ⟨hentryh, hentryf⟩

theorem switch_colourable {labels : List String} {name : String} {subject : Expr} {cases : List Case}
    {entries : List Nat} {f : Fragment}
    (h : Colourable (base + 2) f (f.entry :: entries) fun _ C => C (base + 1) = none) :
    Colourable base (.switch base next labels name subject cases entries f)
      [(Fragment.switch base next labels name subject cases entries f).entry]
      fun _ C => C next = none := by
  obtain ⟨t, htests⟩ : ∃ t, buildTests name (base + 2 + f.size)
    (defaultEntry (base + 1) (cases.zip entries)) (cases.zip entries) = t := ⟨_, rfl⟩
  obtain ⟨cs, hlen, h⟩ := h
  obtain ⟨ts, hlent, ht⟩ : Colourable (base + 2 + f.size) t [t.entry]
      fun _ C => C (base + 1) = none ∧ ∀ a ∈ entries, C a = none := by
    subst htests
    refine colourable_flat fun plan C hC => buildTests_respectsIn ?_ ?_
    · rw [defaultEntry]
      split
      · rename_i hfind
        exact hC.2 _ (List.of_mem_zip (List.mem_of_find?_eq_some hfind)).2
      · exact hC.1
    · exact fun p hp => hC.2 _ (List.of_mem_zip hp).2
  refine ⟨none :: none :: cs ++ ts ++ [none, none, none], by
    simp [Fragment.switch, htests, hlen, hlent], fun plan C hcode hC hn => ?_⟩
  simp only [Fragment.switch, htests, List.cons_append, lies_cons, lies_append, Fragment.length_code,
    hlen, hlent, Option.some.injEq, lies_nil, and_true, List.length_append,
    ← Nat.add_assoc] at hcode hC
  obtain ⟨-, -, ⟨hcf, hct⟩, -⟩ := hcode
  obtain ⟨hpop, hexit, ⟨hcs, hts⟩, hstore, henter, hpush⟩ := hC
  obtain ⟨hentry, hrespects⟩ := h plan C hcf hcs hexit
  obtain ⟨hentryt, hrespectst⟩ := ht plan C hct hts ⟨hexit, fun a ha => hentry a (by simp [ha])⟩
  simp only [List.mem_singleton, forall_eq] at hentryt
  simp [Fragment.switch, htests, hpop, hexit, hstore, henter, hpush,
    hn, hentryt, hrespects, hrespectst]

end Colouring

theorem Laid.colourable {around : Surroundings} {base next : Nat} {part : Part} {f : Fragment}
    (h : Laid around base next part f) : part.Colourable base next f := by
  induction h with
  | leaf => exact colourable_leaf _
  | labeled _ _ ih | blockStmt _ _ ih | alternative _ ih | forIn _ _ ih | forOf _ _ ih => exact ih
  | forPlain _ _ _ ih =>
    obtain ⟨cs, hlen, h⟩ := ih
    exact ⟨cs, hlen, fun plan C hcode hC hn => h plan C hcode hC ⟨hn, by simp⟩⟩
  | enclosed _ _ _ _ ih => exact enclose_colourable ih
  | expr _ he => exact colourable_flat fun plan C hC => effects_respectsIn he (by simp) hC
  | @ifElse _ base _ _ _ no n y t _ _ _ ht ihn ihy =>
    have hyn := colourable_append ihn ihy (fun _ _ hn _ => hn) y.entry
    have ht : Colourable (base + (n.code ++ y.code).length) t [t.entry]
        fun _ C => C y.entry = none ∧ C n.entry = none := by
      simp only [List.length_append, Fragment.length_code, ← Nat.add_assoc]
      exact colourable_flat fun plan C hC => condition_respectsIn ht hC.1 hC.2
    have h := colourable_append hyn ht (fun _ _ _ he => ⟨he _ (by simp), he _ (by simp)⟩) t.entry
    exact h.mono rfl (by simp)
  | whileDo _ _ ht ih => exact testLoop_colourable ih ht (.inl rfl)
  | doWhile _ _ ht ih => exact testLoop_colourable ih ht (.inr rfl)
  | forScoped _ _ _ ih =>
    exact inScope_colourable ih fun plan C past hC hpop => ⟨hC, fun _ => ⟨past, hpop⟩⟩
  | block _ ih => exact inScope_colourable ih fun plan C past hC _ => hC
  | headLoop hu hk _ ht hi ih => exact headLoop_colourable hu hk ih ht hi
  | iteration _ ih => exact iteration_colourable ih
  | tryCatch _ _ _ _ ihf ihh ihb => exact protect_colourable ihf ihh ihb
  | switch _ _ ih => exact switch_colourable ih
  | noAlternative | nil | noCase => exact colourable_skip rfl
  | noFinalizer | noHandler => exact colourable_empty
  | finalizer _ ih => exact finalizer_colourable ih
  | handler _ ih => exact handler_colourable ih
  | cons _ _ ih ih' =>
    have h := colourable_append ih ih' (fun _ _ _ he => he _ (by simp)) 0
    exact h.mono rfl (by simp)
  | case _ _ ih ih' =>
    have h := colourable_append ih ih' (fun _ _ _ he => he _ (by simp)) 0
    exact h.mono rfl (by simp +contextual)

/-- Whether the colours of a plan are respected by all its instructions, and it starts at a position
without one. -/
structure Colours.Paint (C : Colours) (plan : Plan) : Prop where
  entry : C plan.entry = none
  respects : ∀ ip i, plan.get? ip = some i → i.Respects plan C ip

theorem buildPlan_coloured {inAsync : Bool} {params : List Pattern} {body : List Stmt} {plan : Plan}
    (h : buildPlan inAsync params body = .ok plan) : ∃ C : Colours, C.Paint plan := by
  obtain ⟨lowered, f, -, hlaid, hcode, hentry⟩ := buildPlan_laid h
  obtain ⟨cs, hlen, h⟩ := hlaid.colourable
  let C : Colours := fun k => ((none :: cs)[k]?).getD none
  have hC : Lies (fun k => some (C k)) 0 (none :: cs) :=
    lies_of_getElem _ _ _ fun k c hk => by simp [C, hk]
  have hplan : Lies plan.get? 0 plan.code := lies_of_getElem _ _ _ fun k i hk => by
    simpa [Plan.get?] using hk
  rw [hcode] at hplan
  obtain ⟨he, hrespects⟩ := h plan C hplan.2 hC.2 rfl
  have hrespects : CodeRespects plan C 0 plan.code := by
    rw [hcode]
    exact ⟨⟨rfl, by simp⟩, hrespects⟩
  exact ⟨C, by simpa [hentry] using he, fun ip i hi => by
    simpa using codeRespects_get plan C 0 ip plan.code i hrespects hi⟩

end Resumable
