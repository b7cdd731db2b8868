import Mathlib.Tactic

namespace CrashLab.Draws

variable {σ α β : Type}

theorem bind_apply (draw : StateM σ α) (next : α → StateM σ β) (s : σ) :
    (draw >>= next) s = next (draw s).1 (draw s).2 := rfl

theorem andReturn_fst (draw : StateM σ α) (f : α → β) (s : σ) :
    ((do return f (← draw) : StateM σ β) s).1 = f (draw s).1 := rfl

/-- From whatever state the draws start, the result meets `post`. -/
structure Yields (draw : StateM σ α) (post : α → Prop) : Prop where
  result : ∀ s, post (draw s).1

namespace Yields

variable {draw draw' : StateM σ α} {next : α → StateM σ β} {post post' : α → Prop} {postNext : β → Prop}

theorem pure {a : α} (h : post a) : Yields (pure a : StateM σ α) post := ⟨fun _ => h⟩

theorem mono (h : Yields draw post) (himp : ∀ a, post a → post' a) : Yields draw post' :=
  ⟨fun s => himp _ (h.result s)⟩

theorem bind (h : Yields draw post) (hnext : ∀ a, post a → Yields (next a) postNext) :
    Yields (draw >>= next) postNext := ⟨fun s => (hnext _ (h.result s)).result _⟩

theorem bindAny (hnext : ∀ a, Yields (next a) postNext) : Yields (draw >>= next) postNext :=
  ⟨fun _ => (hnext _).result _⟩

theorem ite {p : Prop} [Decidable p] (h : p → Yields draw post) (h' : ¬p → Yields draw' post) :
    Yields (if p then draw else draw') post := by
  split_ifs with hp
  · exact h hp
  · exact h' hp

end Yields

end CrashLab.Draws
