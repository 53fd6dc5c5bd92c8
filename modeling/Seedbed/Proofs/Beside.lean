import Seedbed.Proofs.Related

/-! A state beside the caller's own. The functions of a caller do not know of it and leave it as it
is, so a load does the same with it and without it. -/

namespace Seedbed

namespace Action

variable {S σ α β : Type}

theorem beside_of_run {a : Action σ α} {w w' : σ} {r : Except Thrown α} (h : a w = (r, w'))
    (s : S) : a.beside (s, w) = (r, (s, w')) := by
  rw [beside_run, h]

theorem beside_bind (a : Action σ α) (f : α → Action σ β) :
    (a >>= f).beside = (a.beside >>= fun x => (f x).beside : Action (S × σ) β) := by
  funext ⟨s, w⟩
  rcases run_cases a w with ⟨x, w', h⟩ | ⟨e, w', h⟩
  · rw [bind_ok (beside_of_run h s), beside_run, beside_run, bind_ok h]
  · rw [bind_error (beside_of_run h s), beside_run, bind_error h]

theorem congruence_beside :
    Congruence fun {α : Type} (a : Action (S × σ) α) (b : Action σ α) => a = b.beside where
  run _ := rfl
  bind := by
    rintro α β a b f g rfl hf
    rw [beside_bind, funext hf]
  adapt := by
    rintro α a b f rfl
    rfl

end Action

variable {S σ : Type}

def Source.beside (source : Source σ) : Source (S × σ) where
  reader filename dir := (source.reader filename dir).beside
  environment key := (source.environment key).beside

def Decoder.beside (decoder : Decoder σ) : Decoder (S × σ) := fun text => (decoder text).beside

/-- A load leaves the state beside the caller's own as it is. -/
theorem loadRecords_beside (source : Source σ) (filename : String) (decoder : Decoder σ)
    (dir : Option String) (names : Registry) :
    loadRecords source.beside filename decoder.beside dir names =
      (loadRecords source filename decoder dir names).beside (S := S) :=
  Action.congruence_beside.loadRecords rfl (fun _ => rfl) fun _ => rfl

end Seedbed
