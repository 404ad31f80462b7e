import Mathlib

namespace RaftMonitor.Runs

variable {σ α : Type*} {step : σ → α → Option σ}

/-- Takes the steps one after the other; `none` as soon as one of them is not enabled. -/
def run (step : σ → α → Option σ) : σ → List α → Option σ
  | s, [] => some s
  | s, a :: as => (step s a).bind fun t => run step t as

@[simp] theorem run_nil (s : σ) : run step s [] = some s := rfl

theorem run_cons {s u : σ} {a : α} {as : List α} :
    run step s (a :: as) = some u ↔ ∃ t, step s a = some t ∧ run step t as = some u := by
  simp [run, Option.bind_eq_some_iff]

theorem run_append (s : σ) (as bs : List α) :
    run step s (as ++ bs) = (run step s as).bind fun t => run step t bs := by
  induction as generalizing s with
  | nil => rfl
  | cons a as ih =>
    rw [List.cons_append, run, run, Option.bind_assoc]
    exact Option.bind_congr fun t _ => ih t

/-- Every step of the run meets the condition `ok` in the state it is taken from. -/
def Meets (step : σ → α → Option σ) (ok : σ → α → Prop) : σ → List α → Prop
  | _, [] => True
  | s, a :: as => ok s a ∧ ∀ t, step s a = some t → Meets step ok t as

instance decidableMeets (ok : σ → α → Prop) [∀ s a, Decidable (ok s a)] :
    ∀ (s : σ) (as : List α), Decidable (Meets step ok s as)
  | _, [] => isTrue trivial
  | s, a :: as =>
    have : DecidablePred fun t => Meets step ok t as := fun t => decidableMeets ok t as
    inferInstanceAs (Decidable (ok s a ∧ ∀ t, t ∈ step s a → Meets step ok t as))

theorem meets_of_forall {p : α → Prop} (s : σ) {as : List α} (h : ∀ a ∈ as, p a) :
    Meets step (fun _ a => p a) s as := by
  induction as generalizing s with
  | nil => trivial
  | cons a as ih =>
    refine ⟨h a List.mem_cons_self, fun t _ => ?_⟩
    exact ih t fun b hb => h b (List.mem_cons_of_mem a hb)

/-- What every step that meets the condition preserves, every run whose steps all meet
it preserves. -/
theorem invariant_of_meets {ok : σ → α → Prop} {I : σ → Prop}
    (hstep : ∀ s a t, I s → ok s a → step s a = some t → I t)
    {s u : σ} {as : List α} (hs : I s) (hok : Meets step ok s as)
    (hrun : run step s as = some u) : I u := by
  induction as generalizing s with
  | nil => simpa using (Option.some.inj hrun) ▸ hs
  | cons a as ih =>
    obtain ⟨t, hst, htu⟩ := run_cons.mp hrun
    exact ih (hstep s a t hs hok.1 hst) (hok.2 t hst) htu

theorem invariant {I : σ → Prop} (hstep : ∀ s a t, I s → step s a = some t → I t)
    {s u : σ} {as : List α} (hs : I s) (hrun : run step s as = some u) : I u :=
  invariant_of_meets (fun s a t h _ => hstep s a t h) hs
    (meets_of_forall (p := fun _ => True) s fun _ _ => trivial) hrun

section Serve
variable {τ ρ π : Type*}

/-- Serves the requests one after the other and collects the responses; `none` as soon as one of
them cannot be served. -/
def serve (f : σ → α → Option (σ × ρ)) : σ → List α → Option (σ × List ρ)
  | s, [] => some (s, [])
  | s, a :: as => (f s a).bind fun r => (serve f r.1 as).map fun rs => (rs.1, r.2 :: rs.2)

theorem serve_invariant {f : σ → α → Option (σ × ρ)} {I : σ → Prop}
    (h : ∀ s a r, I s → f s a = some r → I r.1) {s : σ} {as : List α} {rs : σ × List ρ}
    (hs : I s) (hserve : serve f s as = some rs) : I rs.1 := by
  induction as generalizing s rs with
  | nil => exact Option.some.inj hserve ▸ hs
  | cons a as ih =>
    obtain ⟨r, hr, hrest⟩ := Option.bind_eq_some_iff.mp hserve
    obtain ⟨qs, hqs, rfl⟩ := Option.map_eq_some_iff.mp hrest
    have hq : I qs.1 := ih (h s a r hs hr) hqs
    exact hq

theorem serve_append_singleton {f : σ → α → Option (σ × ρ)} {s t u : σ} {as : List α} {a : α}
    {rs : List ρ} {r : ρ} (hserve : serve f s as = some (t, rs)) (ha : f t a = some (u, r)) :
    serve f s (as ++ [a]) = some (u, rs ++ [r]) := by
  induction as generalizing s rs with
  | nil =>
    cases hserve
    simp [serve, ha]
  | cons b as ih =>
    obtain ⟨q, hq, hrest⟩ := Option.bind_eq_some_iff.mp hserve
    obtain ⟨qs, hqs, heq⟩ := Option.map_eq_some_iff.mp hrest
    cases heq
    simp [serve, hq, ih hqs]

/-- The state is kept in relation, the response is the same up to `out`, and neither of the two
gives up alone. -/
def Matches (R : σ → τ → Prop) (out : ρ → π) : Option (σ × ρ) → Option (τ × π) → Prop
  | some r, some q => R r.1 q.1 ∧ out r.2 = q.2
  | none, none => True
  | _, _ => False

theorem serve_matches {f : σ → α → Option (σ × ρ)} {g : τ → α → Option (τ × π)}
    {R : σ → τ → Prop} {out : ρ → π} (h : ∀ s t a, R s t → Matches R out (f s a) (g t a))
    {s : σ} {t : τ} (hst : R s t) (as : List α) :
    Matches R (List.map out) (serve f s as) (serve g t as) := by
  induction as generalizing s t with
  | nil => exact ⟨hst, rfl⟩
  | cons a as ih =>
    have hstep := h s t a hst
    unfold serve
    cases hf : f s a with
    | none =>
      cases hg : g t a with
      | none => trivial
      | some q => rw [hf, hg] at hstep; exact hstep.elim
    | some r =>
      cases hg : g t a with
      | none => rw [hf, hg] at hstep; exact hstep.elim
      | some q =>
        rw [hf, hg] at hstep
        have hrest := ih hstep.1
        simp only [Option.bind_some]
        cases hs : serve f r.1 as with
        | none =>
          cases ht : serve g q.1 as with
          | none => trivial
          | some _ => rw [hs, ht] at hrest; exact hrest.elim
        | some rs =>
          cases ht : serve g q.1 as with
          | none => rw [hs, ht] at hrest; exact hrest.elim
          | some qs =>
            rw [hs, ht] at hrest
            exact ⟨hrest.1, congrArg₂ List.cons hstep.2 hrest.2⟩

end Serve

section Ensures
universe u
variable {ε : Type*} {ρ κ : Type u} {err : ε → Prop} {mid : ρ → Prop}

/-- The computation fails only with errors that meet `err`, and what it returns meets `post`. -/
def Ensures (x : Except ε ρ) (err : ε → Prop) (post : ρ → Prop) : Prop :=
  match x with
  | .error e => err e
  | .ok a => post a

theorem Ensures.bind {x : Except ε ρ} {f : ρ → Except ε κ} {post : κ → Prop}
    (hx : Ensures x err mid) (hf : ∀ a, mid a → Ensures (f a) err post) :
    Ensures (x >>= f) err post := by
  cases x with
  | error e => exact hx
  | ok a => exact hf a hx

end Ensures

end RaftMonitor.Runs
