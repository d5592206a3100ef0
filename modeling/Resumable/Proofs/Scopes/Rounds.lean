import Resumable.Proofs.Machine.Walks

/-!
The turns of a loop whose turns have bindings of their own, in a plan. From one turn to the next the
instance makes one copy of the environment, on every way there.
-/

set_option autoImplicit false

namespace Resumable

open RunOn (Gives)
open Instance (outermost)

/-- Whether an instance dispatches the first instruction of a turn of a loop. -/
def Turn.Begins (loops : List LoopScope) (start : Nat) : Turn → Prop
  | .goOn g => g.loops = loops ∧ g.ip = start
  | .pause _ _ => False

/-- Whether an instance dispatches the copy of the bindings of its innermost loop. -/
def Turn.Copies (loops : List LoopScope) : Turn → Prop
  | .goOn g => g.loops = loops ∧ ∃ next, g.instr? = some (.copyScope next)
  | .pause _ _ => False

/-- Runs of an instance from where it enters a loop until it leaves that: the environments of the loop,
and those in which its turns have begun, newest first. -/
inductive Rounds (host : Host) (first : Instance) (l : LoopScope) (around : List LoopScope)
    (start : Nat) : List ScopeId → List ScopeId → Turn → World → Prop where
  | enters {g : Instance} {k next : Nat} {w : World} : Walk host first (.goOn g) w →
    g.instr? = some (.enterLoop l.labels .loop (some k) l.onBreak start) →
    g.plan.get? k = some (.copyScope next) → g.loops = around →
    l = ⟨l.labels, .loop, some k, l.onBreak, g.scopes.length, g.frames.length⟩ →
    Rounds host first l around start [g.scope] []
      (.goOn { g with loops := l :: around, ip := start }) w
  | begins {es ss : List ScopeId} {t t' : Turn} {w w' : World} :
    Rounds host first l around start es ss t w → t.Begins (l :: around) start →
    StepsTo host t w t' w' → l :: around <:+ t'.subject.loops →
    Rounds host first l around start es (t.subject.scope :: ss) t' w'
  | copies {es ss : List ScopeId} {t t' : Turn} {w w' : World} :
    Rounds host first l around start es ss t w → t.Copies (l :: around) →
    StepsTo host t w t' w' → l :: around <:+ t'.subject.loops →
    Rounds host first l around start (t'.subject.scope :: es) ss t' w'
  | goes {es ss : List ScopeId} {t t' : Turn} {w w' : World} :
    Rounds host first l around start es ss t w → ¬ t.Begins (l :: around) start →
    ¬ t.Copies (l :: around) → StepsTo host t w t' w' → l :: around <:+ t'.subject.loops →
    Rounds host first l around start es ss t' w'

section Stacks

variable {M : StackMap} {c : Context} {n : Nat} {fs : List Frame} {ls : List LoopScope}

theorem Stacked.scopes_le {l : LoopScope} {around : List LoopScope} (h : Stacked M c n fs ls)
    (hl : l :: around <:+ ls) : l.scopes ≤ n := by
  induction h with
  | nil => cases List.suffix_nil.1 hl
  | scope _ ih => exact Nat.le_succ_of_le (ih hl)
  | region _ _ ih | iterator _ ih => exact ih hl
  | loop _ ih =>
    obtain heq | hl := List.suffix_cons_iff.1 hl
    · cases heq
      exact Nat.le_refl _
    · exact ih hl

theorem Stacked.frame_loops_le (h : Stacked M c n fs ls) : ∀ f ∈ fs, f.loops ≤ ls.length := by
  induction h with
  | nil => simp
  | scope _ ih => exact ih
  | region _ _ ih | iterator _ ih => exact List.forall_mem_cons.2 ⟨Nat.le_refl _, ih⟩
  | loop _ ih => exact fun f hf => Nat.le_succ_of_le (ih f hf)

theorem outermost_of_suffix {α : Type} {n : Nat} {xs ys : List α} (h : xs <:+ ys)
    (hn : n ≤ xs.length) : outermost n xs = outermost n ys := by
  obtain ⟨zs, rfl⟩ := h
  induction zs with
  | nil => rfl
  | cons z zs ih =>
    rw [List.cons_append, outermost_cons (by simp; omega)]
    exact ih

end Stacks

/-- What a loop has come to where its instance goes on: the newest environment is where the bindings of
the loop are, and a turn has begun in each of them, but for the newest one between two turns. -/
structure Instance.Rounded (M : StackMap) (C : Colours) (s : Turning) (l : LoopScope)
    (around : List LoopScope) (es ss : List ScopeId) (g : Instance) : Prop where
  inside : l :: around <:+ g.loops
  innermost : ∃ e rest out, es = e :: rest ∧ outermost l.scopes g.scopes = e :: out
  phase : (g.loops = l :: around ∧ C g.ip = some (.between s.start) ∧ M g.ip = M s.start ∧
      ss = es.tail) ∨ ((g.loops = l :: around → C g.ip ≠ some (.between s.start)) ∧ ss = es)

section Steps

variable {plan : Plan} {M : StackMap} {C : Colours} {host : Host} {s : Turning} {l : LoopScope}
  {around : List LoopScope} {es ss : List ScopeId} {g g' : Instance} {t : Turn} {w w' : World}

theorem Instance.MayBecome.rounded (h : g.MayBecome g') (hg : g.Rounded M C s l around es ss) :
    g'.Rounded M C s l around es ss :=
  ⟨h.loops_eq ▸ hg.inside, h.scopes_eq ▸ hg.innermost, by
    rw [h.ip_eq, h.loops_eq]
    exact hg.phase⟩

/-- At the positions of the loop itself the newest environment is the innermost scope. -/
theorem Instance.Rounded.scope_eq {fs : List Frame} {o : Nat} {labels : List String}
    {kind : LoopKind} {onContinue : Option Nat} {onBreak : Nat} {c : Context}
    (h : g.Rounded M C s l around es ss) (hl : g.loops = l :: around)
    (hst : Stacked M (.loop o labels kind onContinue onBreak :: c) g.scopes.length fs g.loops) :
    l = ⟨labels, kind, onContinue, onBreak, g.scopes.length, fs.length⟩ ∧
      ∃ e rest out, es = e :: rest ∧ g.scopes = e :: out := by
  obtain ⟨rest, hloops, -⟩ := hst.of_loop
  obtain ⟨rfl, -⟩ := List.cons.inj (hl.symm.trans hloops)
  obtain ⟨e, rest, out, hes, hscopes⟩ := h.innermost
  exact ⟨rfl, e, rest, out, hes, (outermost_self _).symm.trans hscopes⟩

theorem Instance.Rounded.becomes {x : Run Turn} (h : g.Rounded M C s l around es ss)
    (hle : l.scopes ≤ g.scopes.length) (hb : g.Becomes plan C w x) (hx : x w = .done t w')
    (hbetween : g.loops = l :: around → C g.ip = some (.between s.start) → M g.ip = M s.start →
      Gives (Turn.Keeps (.between plan C M g.place)) x)
    (ht : t.GoesOn) (hin : l :: around <:+ t.subject.loops)
    (hle' : l.scopes ≤ t.subject.scopes.length) : t.subject.Rounded M C s l around es ss := by
  obtain ⟨scopes, -, hscopes, hk⟩ := hb t w' hx
  obtain ⟨hleft, hstands⟩ := hk.stands ht
  refine ⟨hin, ?_, ?_⟩
  · obtain ⟨e, rest, out, hes, hout⟩ := h.innermost
    refine ⟨e, rest, out, hes, ?_⟩
    have hbottom : outermost l.scopes scopes = outermost l.scopes g.scopes := by
      obtain rfl | ⟨a, rfl⟩ := hscopes
      · rfl
      · exact outermost_cons hle
    exact (outermost_of_suffix hleft.scopes hle').trans (hbottom.trans hout)
  · obtain ⟨hl, hc, hm, hss⟩ | ⟨hno, hss⟩ := h.phase
    · obtain hlt | ⟨hl', hc', hm'⟩ := (hbetween hl hc hm _ _ _ hx).stands ht
      · have hlen := hin.length_le
        have hlt : t.subject.loops.length < g.loops.length := hlt
        rw [hl] at hlt
        omega
      · exact .inl ⟨(hl' : t.subject.loops = g.loops).trans hl,
          (hc' : C t.subject.ip = C g.ip).trans hc, (hm' : M t.subject.ip = M g.ip).trans hm, hss⟩
    · refine .inr ⟨fun hl => ?_, hss⟩
      obtain hidle | ⟨hl', -, hc'⟩ := hstands
      · exact hidle s.start
      · rw [show C t.subject.ip = C g.ip from hc']
        exact hno ((hl' : t.subject.loops = g.loops).symm.trans hl)

theorem StepsTo.later {t' : Turn} (hh : host.Grows) (h : StepsTo host t w t' w') : w.Later w' := by
  cases h with
  | dispatch _ hd => exact (dispatch_related hh.suits _ _).2.done hd
  | resume _ _ _ hl hr => exact hl.trans ((resumed_related hh.suits _ _).2.done hr)

/-- What is known of a loop all the while that it runs. -/
structure Tracked (M : StackMap) (C : Colours) (s : Turning) (l : LoopScope)
    (around : List LoopScope) (es ss : List ScopeId) (t : Turn) (w : World) : Prop where
  environments : ∃ outer, Lineage outer es w.scopes
  turns : ss = es ∨ ss = es.tail
  rounded : t.GoesOn → t.subject.Rounded M C s l around es ss

theorem Turn.Good.stacked {t : Turn} (h : t.Good plan M) (ht : t.GoesOn) :
    Stacked M (M t.subject.ip) t.subject.scopes.length t.subject.frames t.subject.loops := by
  cases t with
  | goOn g => exact Instance.At.stacked h
  | pause g p => exact (h ht).stacked

theorem Turning.In.frames_lt (hs : s.In plan M C) (hm : M g.ip = M s.start)
    (hst : Stacked M (M g.ip) g.scopes.length g.frames g.loops) :
    ∀ f ∈ g.frames, f.loops < g.loops.length := by
  rw [hm, hs.at_start] at hst
  obtain ⟨rest, hloops, hst⟩ := hst.of_loop
  rw [hloops]
  exact fun f hf => Nat.lt_succ_of_le (hst.frame_loops_le f hf)

section Walking

variable (hM : M.Maps plan) (hC : C.Paint plan) (hp : host.Proper) (hh : host.Grows)

include hM hC hp

theorem Instance.Rounded.dispatch {i : Instr} (hs : s.In plan M C)
    (hk : (Turn.goOn g).Kept plan M C w) (h : g.Rounded M C s l around es ss) (hh : host.Grows)
    (hi : g.instr? = some i) (hd : g.dispatch host i w = .done t w')
    (hbegins : ¬ (Turn.goOn g).Begins (l :: around) s.start)
    (hcopies : ¬ (Turn.goOn g).Copies (l :: around)) (ht : t.GoesOn)
    (hin : l :: around <:+ t.subject.loops) (ht' : t.Kept plan M C w') :
    t.subject.Rounded M C s l around es ss := by
  have hat : g.At plan M (M g.ip) := hk.good
  have hget : plan.get? g.ip = some i := by rwa [Instance.instr?, hat.plan_eq] at hi
  have hle := hat.stacked.scopes_le h.inside
  have hle' := (ht'.good.stacked ht).scopes_le hin
  have hnojump (hloops : g.loops = l :: around) (hc : C g.ip = some (.between s.start))
      (target : Nat) : i ≠ .jump target := by
    rintro rfl
    have hrespects := hC.respects _ _ hget
    simp only [Instr.Respects, hc, Option.some.injEq, Colour.between.injEq, reduceCtorEq,
      false_or] at hrespects
    exact hbegins ⟨hloops, hrespects.1.symm⟩
  cases i with
  | copyScope next =>
    have hne : g.loops ≠ l :: around := fun heq => hcopies ⟨heq, next, hi⟩
    obtain ⟨s', hs', hcopy, -⟩ := Turning.of_copyScope hM hC hget
    obtain ⟨a, rest, hscopes, hdispatch⟩ := dispatch_copy hM hC hat hget
    rw [hdispatch] at hd
    cases hd
    have hst := hat.stacked
    rw [← hcopy, hs'.at_copy] at hst
    obtain ⟨inner, hloops, hst⟩ := hst.of_loop
    obtain ⟨m, hm, hst⟩ := hst.of_scope
    -- the scope that is replaced lies inside of the loop
    have hinner : l :: around <:+ inner := by
      have h := h.inside
      rw [hloops] at h
      exact (List.suffix_cons_iff.1 h).resolve_left fun heq => hne (hloops.trans heq.symm)
    have hlem := hst.scopes_le hinner
    rw [hscopes, List.length_cons, Nat.add_right_cancel_iff] at hm
    obtain ⟨e, es', out, hes, hout⟩ := h.innermost
    rw [hscopes, outermost_cons (hm ▸ hlem)] at hout
    refine ⟨h.inside, ⟨e, es', out, hes, (outermost_cons (hm ▸ hlem)).trans hout⟩, ?_⟩
    obtain ⟨heq, -⟩ | ⟨-, hss⟩ := h.phase
    · exact absurd heq hne
    · exact .inr ⟨fun heq => absurd heq hne, hss⟩
  | enterLoop labels kind onContinue onBreak next =>
    rw [enterLoop_apply] at hd
    cases hd
    have hno : C g.ip ≠ some (.between s.start) := by simp [(hC.respects _ _ hget).1]
    refine ⟨hin, h.innermost, .inr ⟨fun heq => ?_, ?_⟩⟩
    · have hlen := h.inside.length_le
      have := congrArg List.length heq
      simp only [Turn.subject, List.length_cons] at this hlen
      omega
    · obtain ⟨-, hc, -⟩ | ⟨-, hss⟩ := h.phase
      · exact absurd hc hno
      · exact hss
  | _ =>
    refine h.becomes hle (dispatch_becomes hC hh hk.tidy hk.nest hi (by simp) (by simp)) hd
      (fun hloops hc hm => ?_) ht hin hle'
    have hg : g.Between plan C s.start := ⟨hat.plan_eq, hc, hs.frames_lt hm hat.stacked⟩
    exact dispatch_between hC hM hp hg hi (hnojump hloops hc)

theorem Instance.Rounded.resume {a : Action} (hs : s.In plan M C) (h : g.Rounded M C s l around es ss)
    (hh : host.Grows) (hrests : g.Rests plan M) (htidy : g.Tidy plan C)
    (hnest : w.scopes.Nest g.base g.scopes) (hr : g.resumed host a w = .done t w') (ht : t.GoesOn)
    (hin : l :: around <:+ t.subject.loops) (ht' : t.Kept plan M C w') :
    t.subject.Rounded M C s l around es ss := by
  refine h.becomes (hrests.stacked.scopes_le h.inside) (resumed_becomes hC hh htidy hnest a) hr
    (fun _ hc hm => ?_) ht hin ((ht'.good.stacked ht).scopes_le hin)
  exact resumed_between hC hM hp ⟨hrests.plan_eq, hc, hs.frames_lt hm hrests.stacked⟩ a

omit hM hC hp in
theorem Instance.Rounded.at_start (hs : s.In plan M C) (h : g.Rounded M C s l around es ss)
    (hat : g.At plan M (M g.ip)) (hloops : g.loops = l :: around) (hip : g.ip = s.start) :
    es = g.scope :: ss := by
  have hst := hat.stacked
  rw [hip, hs.at_start] at hst
  obtain ⟨-, e, rest, out, rfl, hscopes⟩ := h.scope_eq hloops hst
  obtain ⟨-, -, -, rfl⟩ | ⟨hno, -⟩ := h.phase
  · simp [Instance.scope, hscopes]
  · exact absurd (hip ▸ hs.colour) (hno hloops)

omit hp in
theorem Instance.Rounded.at_copy (h : g.Rounded M C s l around es ss) (hat : g.At plan M (M g.ip))
    (hloops : g.loops = l :: around) {next : Nat} (hi : plan.get? g.ip = some (.copyScope next)) :
    l.onContinue = some g.ip ∧ ss = es ∧ ∃ rest out, es = g.scope :: rest ∧
      g.scopes = g.scope :: out ∧ l.scopes = out.length + 1 := by
  obtain ⟨s', hs', hcopy, -⟩ := Turning.of_copyScope hM hC hi
  have hst := hat.stacked
  rw [← hcopy, hs'.at_copy] at hst
  obtain ⟨hl, e, rest, out, rfl, hscopes⟩ := h.scope_eq hloops hst
  have hscope : g.scope = e := by simp [Instance.scope, hscopes]
  have hlen : l.scopes = out.length + 1 := by simp [hl, hscopes]
  refine ⟨by rw [hl, hcopy], ?_, rest, out, by rw [hscope], by rw [hscope, hscopes], hlen⟩
  obtain ⟨-, hc, -⟩ | ⟨-, hss⟩ := h.phase
  · simp [(hC.respects _ _ hi).1] at hc
  · exact hss

end Walking

section Rounds

variable {base : ScopeId} {isAsync : Bool} {start : Nat}

theorem Rounds.walk {first : Instance} (h : Rounds host first l around start es ss t w) :
    Walk host first t w := by
  induction h with
  | enters hw hi _ hl hl' =>
    subst hl
    exact hw.step (.dispatch hi (by rw [enterLoop_apply, ← hl']))
  | begins _ _ hs _ ih | copies _ _ hs _ ih | goes _ _ _ hs _ ih => exact ih.step hs

variable (hM : M.Maps plan) (hC : C.Paint plan) (hp : host.Proper) (hh : host.Grows)

include hM hC hp hh

theorem Rounds.kept (h : Rounds host (.running plan base isAsync) l around start es ss t w) :
    t.Kept plan M C w := h.walk.kept hM hC hp hh

theorem Rounds.tracked (h : Rounds host (.running plan base isAsync) l around start es ss t w) :
    ∃ s : Turning, s.In plan M C ∧ s.start = start ∧ l.onContinue = some s.copy ∧
      Tracked M C s l around es ss t w := by
  induction h with
  | @enters g k next w hw hi hk hl hl' =>
    have hkept := hw.kept hM hC hp hh
    have hat : g.At plan M (M g.ip) := hkept.good
    rw [Instance.instr?, hat.plan_eq] at hi
    rw [hat.plan_eq] at hk
    obtain ⟨outer, hs⟩ := Turning.of_enterLoop hM hC hi hk
    have hst := hat.stacked
    rw [hs.around] at hst
    obtain ⟨a, rest, hscopes⟩ := scopes_of_stacked hst rfl
    have hscope : g.scope = a := by simp [Instance.scope, hscopes]
    have hnest : w.scopes.Nest g.base g.scopes := hkept.nest
    rw [hscopes] at hnest
    refine ⟨_, hs, rfl, congrArg LoopScope.onContinue hl', ⟨_, .opened (hscope ▸ hnest.1)⟩, .inr rfl,
      fun _ => ⟨List.suffix_rfl, ⟨a, [], rest, by rw [hscope], ?_⟩,
        .inl ⟨rfl, hs.colour, rfl, rfl⟩⟩⟩
    rw [congrArg LoopScope.scopes hl']
    exact (outermost_self g.scopes).trans hscopes
  | @begins es ss t t' w w' h hb hstep hin ih =>
    obtain ⟨s, hs, rfl, hl, ht⟩ := ih
    obtain ⟨head, hjump⟩ := hs.begins
    cases hstep with
    | resume => cases hb
    | @dispatch g i _ _ _ hi hd =>
      obtain ⟨hloops, hip⟩ := hb
      have hat : g.At plan M (M g.ip) := (h.kept hM hC hp hh).good
      rw [Instance.instr?, hat.plan_eq, hip, hjump] at hi
      cases hi
      cases hd
      have hg := ht.rounded trivial
      have hes := hg.at_start hs hat hloops hip
      refine ⟨s, hs, rfl, hl, ht.environments, .inl hes.symm, fun _ => ⟨hin, hg.innermost, .inr ⟨fun _ => ?_, hes.symm⟩⟩⟩
      have hhead : C head = none := (hC.respects _ _ hjump).2
      simp [Turn.subject, Instance.goto, hhead]
  | @copies es ss t t' w w' h hb hstep hin ih =>
    obtain ⟨s, hs, rfl, hl, ht⟩ := ih
    cases hstep with
    | resume => cases hb
    | @dispatch g i _ _ _ hi hd =>
      obtain ⟨hloops, next, hcopy⟩ := hb
      cases hi.symm.trans hcopy
      have hat : g.At plan M (M g.ip) := (h.kept hM hC hp hh).good
      rw [Instance.instr?, hat.plan_eq] at hi
      obtain ⟨hl', hss, rest, out, hes, hscopes, hlen⟩ := (ht.rounded trivial).at_copy hM hC hat hloops hi
      obtain ⟨s', hs', hs'', hc, hm⟩ := Turning.of_copyScope hM hC hi
      obtain rfl : s' = s := hs'.ext hs (hs''.trans (Option.some.inj (hl'.symm.trans hl)))
      obtain ⟨a, rest', hscopes', hdispatch⟩ := dispatch_copy hM hC hat hi
      rw [hdispatch] at hd
      cases hd
      obtain ⟨rfl, rfl⟩ := List.cons.inj (hscopes.symm.trans hscopes')
      obtain ⟨outer, henv⟩ := ht.environments
      rw [hes] at henv
      refine ⟨s', hs, rfl, hl, ⟨outer, hes ▸ henv.copied⟩, .inr hss, fun _ =>
        ⟨hin, ⟨_, _, out, rfl, ?_⟩, .inl ⟨hloops, hc, hm, hss⟩⟩⟩
      rw [hlen]
      exact outermost_self (_ :: out)
  | @goes es ss t t' w w' h hb hc hstep hin ih =>
    obtain ⟨s, hs, rfl, hl, ht⟩ := ih
    obtain ⟨outer, henv⟩ := ht.environments
    refine ⟨s, hs, rfl, hl, ⟨outer, henv.grown (hstep.later hh).scopes⟩, ht.turns, fun hon => ?_⟩
    have hkept := h.kept hM hC hp hh
    have hkept' := hstep.kept hM hC hp hh hkept
    cases hstep with
    | dispatch hi hd => exact (ht.rounded trivial).dispatch hM hC hp hs hkept hh hi hd hb hc hon hin hkept'
    | resume hp' hg hbase hlater hr =>
      have hrounded := hg.rounded (ht.rounded hp')
      exact hrounded.resume hM hC hp hs hh (hg.rests (hkept.good hp')) (hg.tidy hkept.tidy)
        (hg.nest hbase hlater hkept.nest) hr hon hin hkept'

/-- What holds of a loop at every turn of its instance. -/
structure RoundsApart (host : Host) (l : LoopScope) (around : List LoopScope) (start : Nat)
    (es ss : List ScopeId) (t : Turn) (w : World) : Prop where
  apart : w.scopes.Apart es
  /-- A turn has begun in each environment, but perhaps not yet in the newest one. -/
  turns : ss = es ∨ ss = es.tail
  /-- What runs in the loop sees the newest environment. -/
  visible : t.GoesOn → ∃ e ∈ es.head?, e ∈ w.scopes.chain t.subject.scope
  /-- A turn begins in the newest environment, in which none has begun before. -/
  begins : t.Begins (l :: around) start → es = t.subject.scope :: ss
  /-- The bindings are copied as the last turn has left them, right after it. -/
  copies : t.Copies (l :: around) → ss = es ∧ es.head? = some t.subject.scope ∧
    ∀ t' w', StepsTo host t w t' w' → w.scopes.Copies w'.scopes t.subject.scope t'.subject.scope

theorem Rounds.apart (h : Rounds host (.running plan base isAsync) l around start es ss t w) :
    RoundsApart host l around start es ss t w := by
  obtain ⟨s, hs, rfl, hl, ht⟩ := h.tracked hM hC hp hh
  have hkept := h.kept hM hC hp hh
  obtain ⟨outer, henv⟩ := ht.environments
  refine ⟨henv.areApart, ht.turns, fun hon => ?_, fun hb => ?_, fun hc => ?_⟩
  · obtain ⟨e, rest, out, rfl, hout⟩ := (ht.rounded hon).innermost
    exact ⟨e, rfl, hkept.nest.mem_chain (List.mem_of_mem_drop (hout ▸ List.mem_cons_self))⟩
  · cases t with
    | pause => cases hb
    | goOn g => exact (ht.rounded trivial).at_start hs hkept.good hb.1 hb.2
  · cases t with
    | pause => cases hc
    | goOn g =>
      obtain ⟨hloops, next, hi⟩ := hc
      have hat : g.At plan M (M g.ip) := hkept.good
      have hget : plan.get? g.ip = some (.copyScope next) := by
        rwa [Instance.instr?, hat.plan_eq] at hi
      obtain ⟨-, hss, rest, out, hes, hscopes, -⟩ :=
        (ht.rounded trivial).at_copy hM hC hat hloops hget
      refine ⟨hss, by rw [hes]; rfl, fun t' w' hstep => ?_⟩
      cases hstep with
      | dispatch hi' hd =>
        cases hi'.symm.trans hi
        obtain ⟨a, rest', hscopes', hdispatch⟩ := dispatch_copy (w := w) hM hC hat hget
        rw [hdispatch] at hd
        cases hd
        obtain ⟨ha, -⟩ := List.cons.inj (hscopes.symm.trans hscopes')
        exact ha ▸ (henv.stands (hes ▸ List.mem_cons_self)).copies

end Rounds

end Steps

end Resumable
