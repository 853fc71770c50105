import Flowgraph.Session.Evaluation

namespace Flowgraph

/-- A body that ends keeps its answer when more of its nested evaluations end. -/
theorem Program.run_mono {α : Type} {call call' : Target → Entry → Session → Outcome Unit}
    (h : ∀ target entry s r, call target entry s = some r → call' target entry s = some r)
    (p : Program α) {s : Session} {r : Except Error α × Session} (hr : p.run call s = some r) :
    p.run call' s = some r := by
  induction p generalizing s with
  | finish result => exact hr
  | perform op next ih => exact ih _ hr
  | enter target entry next ih =>
    simp only [Program.run] at hr ⊢
    cases hc : call target entry s with
    | none => simp [hc] at hr
    | some answer =>
      rw [h _ _ _ _ hc]
      rw [hc] at hr
      exact ih _ hr

namespace Session

theorem evaluateWith_mono {drain drain' : Graph → Session → Outcome Unit}
    (h : ∀ g s r, drain g s = some r → drain' g s = some r) {s : Session} {g : Graph} {entry : Entry}
    {r : Except Error Unit × Session} (hr : s.evaluateWith drain g entry = some r) :
    s.evaluateWith drain' g entry = some r := by
  unfold evaluateWith at hr ⊢
  cases hs : s.seeds g entry with
  | mk seeds opened =>
    cases seeds with
    | error e => simpa [hs] using hr
    | ok queue =>
      simp only [hs] at hr ⊢
      cases hd : drain g (opened.openGraph g entry queue) with
      | none => simp [hd] at hr
      | some answer => rw [h _ _ _ hd]; rwa [hd] at hr

theorem callWith_mono {drain drain' : Graph → Session → Outcome Unit}
    (h : ∀ g s r, drain g s = some r → drain' g s = some r) {scene : Scene} {target : Target}
    {entry : Entry} {s : Session} {r : Except Error Unit × Session}
    (hr : callWith drain scene target entry s = some r) :
    callWith drain' scene target entry s = some r := by
  unfold callWith at hr ⊢
  cases hg : s.resolve scene target with
  | error e => simpa [hg] using hr
  | ok g => rw [hg] at hr; exact evaluateWith_mono h hr

/-- More fuel keeps the answer of a run that ended. -/
theorem drain_mono {scene : Scene} {fuel fuel' : Nat} (hf : fuel ≤ fuel') {g : Graph} {s : Session}
    {r : Except Error Unit × Session} (hr : drain scene fuel g s = some r) :
    drain scene fuel' g s = some r := by
  induction fuel generalizing fuel' g s r with
  | zero => simp [drain] at hr
  | succ fuel ih =>
    obtain ⟨fuel', rfl⟩ : ∃ n, fuel' = n + 1 := ⟨fuel' - 1, by omega⟩
    have hf : fuel ≤ fuel' := by omega
    unfold drain at hr ⊢
    split at hr
    · exact hr
    · rename_i h s hd
      dsimp only at hr ⊢
      split at hr
      · exact hr
      · split at hr
        · rename_i d body hv
          cases hb : body.run (callWith (drain scene fuel) scene) (s.countStep.startNode g.id h d) with
          | none => simp [hb] at hr
          | some answer =>
            have hb' := Program.run_mono (fun _ _ _ _ => callWith_mono fun _ _ _ => ih hf) body hb
            rw [hb']
            rw [hb] at hr
            exact ih hf hr
        · exact ih hf hr

theorem evaluate_mono {scene : Scene} {fuel fuel' : Nat} (hf : fuel ≤ fuel') {g : Graph}
    {entry : Entry} {s : Session} {r : Except Error Unit × Session}
    (hr : s.evaluate scene fuel g entry = some r) : s.evaluate scene fuel' g entry = some r :=
  evaluateWith_mono (fun _ _ _ => drain_mono hf) hr

end Session

end Flowgraph
