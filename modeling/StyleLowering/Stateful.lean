/-
# Computations with a state

The passes over a tree carry a state along: the counter for class names, the
state of the file, the reports.  A computation is a function of the state it
starts in, and the lemmas here say what each of the basic steps gives there.
-/

namespace StyleLowering
namespace Stateful

variable {σ α β : Type}

/-- To return a value leaves the state. -/
theorem pure_apply (a : α) (s : σ) : (pure a : StateM σ α) s = (a, s) := rfl

/-- The second step starts from where the first one ends. -/
theorem bind_apply (x : StateM σ α) (f : α → StateM σ β) (s : σ) :
    (x >>= f) s = f (x s).1 (x s).2 := rfl

/-- A function of the result leaves the state. -/
theorem map_apply (f : α → β) (x : StateM σ α) (s : σ) : (f <$> x) s = (f (x s).1, (x s).2) := rfl

/-- To read the state leaves it. -/
theorem get_apply (s : σ) : (get : StateM σ σ) s = (s, s) := rfl

/-- To write the state forgets the old one. -/
theorem set_apply (t s : σ) : (set t : StateM σ PUnit) s = (⟨⟩, t) := rfl

/-- To change the state is to apply a function to it. -/
theorem modify_apply (f : σ → σ) (s : σ) : (modify f : StateM σ PUnit) s = (⟨⟩, f s) := rfl

/-- A choice of steps is a choice of their results. -/
theorem ite_apply {c : Prop} [Decidable c] (x y : StateM σ α) (s : σ) :
    (if c then x else y) s = if c then x s else y s := by
  split <;> rfl

end Stateful
end StyleLowering
