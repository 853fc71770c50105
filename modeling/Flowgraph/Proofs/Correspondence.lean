import Flowgraph.Proofs.Machine

namespace Flowgraph

/-- The machine follows a bounded evaluator: an answer within the bound is reached by steps, and where
there is none the machine makes at least as many steps as the bound allows. -/
def Follows (fuel : Nat) (m : Machine) (last : Except Error Unit → Session → Machine) :
    Outcome Unit → Prop
  | some (result, s) => ∃ ls, Steps m ls (last result s)
  | none => ∃ ls m', Steps m ls m' ∧ fuel ≤ ls.length

theorem Follows.after_steps (h : Steps m ls m') (hf : Follows fuel m' last outcome) :
    Follows fuel m last outcome := by
  match outcome with
  | some (result, s) =>
    obtain ⟨ls', h'⟩ := hf
    exact ⟨ls ++ ls', h.trans h'⟩
  | none =>
    obtain ⟨ls', m'', h', hl⟩ := hf
    refine ⟨ls ++ ls', m'', h.trans h', ?_⟩
    rw [List.length_append]
    omega

theorem Follows.after_step (h : Step m l m') (hf : Follows fuel m' last outcome) :
    Follows (fuel + 1) m last outcome := by
  match outcome with
  | some (result, s) =>
    obtain ⟨ls, h'⟩ := hf
    exact ⟨l :: ls, .head h h'⟩
  | none =>
    obtain ⟨ls, m'', h', hl⟩ := hf
    exact ⟨l :: ls, m'', .head h h', by simpa using hl⟩

/-- The drains that nested evaluations are left to. -/
def DrainFollows (scene : Scene) (fuel : Nat) (drain : Graph → Session → Outcome Unit) : Prop :=
  ∀ g s ws, Follows fuel ⟨scene, .draining g, ws, s⟩
    (fun result s' => ⟨scene, .returning result, ws, s'.closeGraph⟩) (drain g s)

theorem evaluateWith_follows (hd : DrainFollows scene fuel drain) (s : Session) (g : Graph)
    (entry : Entry) (ws : List Suspended) :
    Follows fuel ⟨scene, .entering g entry, ws, s⟩
      (fun result s' => ⟨scene, .returning result, ws, s'⟩) (s.evaluateWith drain g entry) := by
  unfold Session.evaluateWith
  match hs : s.seeds g entry with
  | (.error e, s') => exact ⟨_, .one (.refuse hs)⟩
  | (.ok queue, s') =>
    have hf := hd g (s'.openGraph g entry queue) ws
    dsimp only
    match hr : drain g (s'.openGraph g entry queue) with
    | none =>
      rw [hr] at hf
      exact .after_steps (.one (.enter hs)) hf
    | some (result, t) =>
      rw [hr] at hf
      obtain ⟨ls, h⟩ := hf
      exact ⟨_, .head (.enter hs) h⟩

/-- A body goes on after a nested evaluation with what that one has returned. -/
theorem run_follows (hd : DrainFollows scene fuel drain) (a : Activation) (ws : List Suspended)
    (p : Program Unit) (s : Session) :
    Follows fuel ⟨scene, .running a p, ws, s⟩
      (fun result s' => ⟨scene, .running a (.finish result), ws, s'⟩)
      (p.run (Session.callWith drain scene) s) := by
  induction p generalizing s with
  | finish result => exact ⟨[], .refl _⟩
  | perform op next ih => exact .after_steps (.one .perform) (ih _ _)
  | enter target entry next ih =>
    simp only [Program.run, Session.callWith]
    cases hr : s.resolve scene target with
    | error e => exact .after_steps (.one (.unresolved hr)) (ih _ _)
    | ok g =>
      have hf := evaluateWith_follows hd s g entry (⟨a, next⟩ :: ws)
      dsimp only
      cases he : s.evaluateWith drain g entry with
      | none =>
        rw [he] at hf
        exact .after_steps (.one (.call hr)) hf
      | some outcome =>
        obtain ⟨result, t⟩ := outcome
        rw [he] at hf
        obtain ⟨ls, h⟩ := hf
        exact .after_steps ((Steps.one (.call hr)).trans (h.trans (.one .resume))) (ih _ _)

theorem drain_follows (scene : Scene) (fuel : Nat) :
    DrainFollows scene fuel (Session.drain scene fuel) := by
  -- Each unit of the bound pays for one node, and each node costs a step at least.
  induction fuel with
  | zero =>
    intro g s ws
    exact ⟨[], _, .refl _, Nat.le_refl _⟩
  | succ fuel ih =>
    intro g s ws
    unfold Session.drain
    cases hq : s.dequeue? with
    | none => exact ⟨_, .one (.drained hq)⟩
    | some next =>
      obtain ⟨h, s'⟩ := next
      dsimp only
      cases he : s'.countStep.exceeded? with
      | some limit => exact ⟨_, .one (.exhaust hq he)⟩
      | none =>
        have settled {v : Session.Verdict} (hv : s'.countStep.verdict g h = v)
            (hn : ∀ d body, v ≠ .start d body) :=
          Follows.after_step (.settle hq he hv hn) (ih g (s'.countStep.settle g.id h v) ws)
        dsimp only
        cases hv : s'.countStep.verdict g h with
        | start d body =>
          have hf := run_follows ih ⟨g, h, d⟩ ws body (s'.countStep.startNode g.id h d)
          dsimp only
          cases hr : body.run (Session.callWith (Session.drain scene fuel) scene)
              (s'.countStep.startNode g.id h d) with
          | none =>
            rw [hr] at hf
            exact .after_step (.start hq he hv) hf
          | some outcome =>
            obtain ⟨result, t⟩ := outcome
            rw [hr] at hf
            obtain ⟨ls, hb⟩ := hf
            exact .after_step (.start hq he hv)
              (.after_steps (hb.trans (.one .finish)) (ih g _ ws))
        | alreadyDropped | alreadyEvaluated | drop e | defer producers =>
          exact settled hv (by simp)

/-- The machine's evaluations are those of the session: with enough work allowed to it the session
comes to the same end, and no other. -/
theorem evaluate_iff_call {scene : Scene} {s s' : Session} {g : Graph} {entry : Entry}
    {result : Except Error Unit} :
    (∃ fuel, s.evaluate scene fuel g entry = some (result, s')) ↔
      ∃ ls, Call scene s g entry ls result s' := by
  constructor
  · rintro ⟨fuel, he⟩
    have hf := evaluateWith_follows (drain_follows scene fuel) s g entry []
    rw [show s.evaluateWith (Session.drain scene fuel) g entry = some (result, s') from he] at hf
    exact hf
  · rintro ⟨ls, h⟩
    -- Whoever gives up on this bound has made more steps than there are to the end.
    refine ⟨ls.length + 1, ?_⟩
    have hf := evaluateWith_follows (drain_follows scene (ls.length + 1)) s g entry []
    have hend := returning_ends scene result s'
    unfold Session.evaluate
    match he : s.evaluateWith (Session.drain scene (ls.length + 1)) g entry with
    | none =>
      rw [he] at hf
      obtain ⟨ls', m', h', hl⟩ := hf
      have := h.length_le hend h'
      omega
    | some (result', t) =>
      rw [he] at hf
      obtain ⟨ls', h'⟩ := hf
      obtain ⟨-, rfl, rfl⟩ := Call.unique h h'
      rfl

/-- An evaluation that comes to its end does so with all the work allowed to it that is enough. -/
theorem Call.evaluate (h : Call scene s g entry ls result s') :
    ∃ fuel, ∀ fuel' ≥ fuel, s.evaluate scene fuel' g entry = some (result, s') := by
  obtain ⟨fuel, he⟩ := evaluate_iff_call.mpr ⟨ls, h⟩
  exact ⟨fuel, fun fuel' hf => Session.evaluate_mono hf he⟩

/-- What an evaluation returns does not depend on the work allowed to it. -/
theorem evaluate_unique {scene : Scene} {s s₁ s₂ : Session} {g : Graph} {entry : Entry}
    {fuel₁ fuel₂ : Nat} {result₁ result₂ : Except Error Unit}
    (h₁ : s.evaluate scene fuel₁ g entry = some (result₁, s₁))
    (h₂ : s.evaluate scene fuel₂ g entry = some (result₂, s₂)) : result₁ = result₂ ∧ s₁ = s₂ := by
  obtain ⟨ls₁, hcall₁⟩ := evaluate_iff_call.mp ⟨fuel₁, h₁⟩
  obtain ⟨ls₂, hcall₂⟩ := evaluate_iff_call.mp ⟨fuel₂, h₂⟩
  exact (hcall₁.unique hcall₂).2

/-- An evaluation that has a next moment at every moment does not come to an end. -/
theorem evaluate_eq_none {I : Machine → Prop}
    (progress : ∀ m, I m → ∃ l m', Step m l m' ∧ I m') {scene : Scene} {s : Session} {g : Graph}
    {entry : Entry} (start : I ⟨scene, .entering g entry, [], s⟩) (fuel : Nat) :
    s.evaluate scene fuel g entry = none := by
  have kept {m m' : Machine} {ls : List Label} (h : Steps m ls m') (hm : I m) : I m' := by
    induction h with
    | refl => exact hm
    | head first _ ih =>
      obtain ⟨l, m₁, hstep, hm₁⟩ := progress _ hm
      obtain ⟨-, rfl⟩ := first.deterministic hstep
      exact ih hm₁
  cases he : s.evaluate scene fuel g entry with
  | none => rfl
  | some outcome =>
    obtain ⟨ls, hcall⟩ := evaluate_iff_call.mp ⟨fuel, he⟩
    obtain ⟨l, m', hstep, -⟩ := progress _ (kept hcall start)
    exact absurd hstep (returning_ends _ _ _ _ _)

/-- Whatever a host does with a session belongs to the life of the session. -/
theorem Life.host {p : Program α} (h : Life ls ⟨scene₀, .idle, [], s⟩)
    (hr : s.host scene fuel p = some (result, s')) :
    ∃ ls' scene', Life (ls ++ ls') ⟨scene', .idle, [], s'⟩ := by
  induction p generalizing s ls scene₀ with
  | finish r =>
    cases hr
    exact ⟨[], scene₀, by simpa using h⟩
  | perform op next ih => exact ih _ (h.move (.perform op)) hr
  | enter target entry next ih =>
    simp only [Session.host, Program.run, Session.callWith] at hr
    cases hg : s.resolve scene target with
    | error e =>
      rw [hg] at hr
      exact ih _ h hr
    | ok g =>
      rw [hg] at hr
      dsimp only at hr
      cases he : s.evaluateWith (Session.drain scene fuel) g entry with
      | none =>
        rw [he] at hr
        cases hr
      | some outcome =>
        obtain ⟨answer, t⟩ := outcome
        rw [he] at hr
        obtain ⟨labels, hcall⟩ := evaluate_iff_call.mp ⟨fuel, he⟩
        have entered := (h.move (.call scene g entry)).run (Steps.run hcall)
        obtain ⟨ls', scene', hlife⟩ := ih _ (entered.move .collect) hr
        exact ⟨labels ++ ls', scene', by simpa using hlife⟩

end Flowgraph
