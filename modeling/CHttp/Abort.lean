import Mathlib.Logic.Basic

/-!
# Failed assertions

The source stops the process through `assert`, `CHTTP_ASSERT` and `abort`. A modelled
function that can do so returns `Except Abort`, and `Abort` says where and with which text.
-/

namespace CHttp

/-- A failed assertion: the function it stands in and its text. -/
structure Abort where
  func : String
  text : String
  deriving DecidableEq, Repr

/-- `assert(test)` in the function `func`. -/
def assertThat (test : Bool) (func text : String) : Except Abort Unit :=
  if test then .ok () else .error ⟨func, text⟩

@[simp]
theorem assertThat_true (func text : String) : assertThat true func text = .ok () := rfl

@[simp]
theorem assertThat_false (func text : String) :
    assertThat false func text = .error ⟨func, text⟩ := rfl

end CHttp
