/-!
# Runs of operations

An operation on a state gives an answer and the state after it. A run carries out operations one
after another and collects their answers.

Two rules carry everything that is said about runs: what one operation keeps, a run keeps
(`run_invariant`), and if two machines answer alike as long as their states correspond, they answer
alike over whole runs (`run_simulation`).
-/

namespace EvidenceTags

variable {ω σ τ α : Type}

/-- The answers to a list of operations, in order, and the state after the last one. -/
def run (exec : ω → σ → α × σ) : List ω → σ → List α × σ
  | [], s => ([], s)
  | op :: ops, s =>
    let (answer, s) := exec op s
    let (answers, s) := run exec ops s
    (answer :: answers, s)

@[simp] theorem run_nil (exec : ω → σ → α × σ) (s : σ) : run exec [] s = ([], s) := rfl

@[simp] theorem run_cons (exec : ω → σ → α × σ) (op : ω) (ops : List ω) (s : σ) :
    run exec (op :: ops) s
      = ((exec op s).1 :: (run exec ops (exec op s).2).1, (run exec ops (exec op s).2).2) := rfl

/-- What every single operation keeps is kept by a run. -/
theorem run_invariant {exec : ω → σ → α × σ} {Inv : σ → Prop}
    (hstep : ∀ op s, Inv s → Inv (exec op s).2) (ops : List ω) {s : σ} (hs : Inv s) :
    Inv (run exec ops s).2 := by
  induction ops generalizing s with
  | nil => exact hs
  | cons op ops ih => exact ih (hstep op s hs)

/-- Machines that answer alike in corresponding states, and get to corresponding states, give the
same answers over every run. -/
theorem run_simulation {exec : ω → σ → α × σ} {exec' : ω → τ → α × τ} {R : σ → τ → Prop}
    (hstep : ∀ op s t, R s t → (exec op s).1 = (exec' op t).1 ∧ R (exec op s).2 (exec' op t).2)
    (ops : List ω) {s : σ} {t : τ} (hR : R s t) :
    (run exec ops s).1 = (run exec' ops t).1 ∧ R (run exec ops s).2 (run exec' ops t).2 := by
  induction ops generalizing s t with
  | nil => exact ⟨rfl, hR⟩
  | cons op ops ih =>
    obtain ⟨hanswer, hnext⟩ := hstep op s t hR
    obtain ⟨hanswers, hlast⟩ := ih hnext
    refine ⟨?_, hlast⟩
    rw [run_cons, run_cons, hanswer, hanswers]

end EvidenceTags
