/-!
# AsioStudy.Core.ErrorCode

`boost::system::error_code`: a value and the category it belongs to. Two codes are
equal when both agree; handlers that test `ec.value() != 0` look at the value alone.
-/

namespace AsioStudy

/-- `boost::system::error_category`, told apart by `name()`. -/
inductive ErrorCategory
  | system
  /-- `asio::error::get_misc_category()` -/
  | misc
  /-- A category an application defines. -/
  | other (name : String)
  deriving DecidableEq, Repr

/-- `boost::system::error_code` -/
structure ErrorCode where
  value : Int
  category : ErrorCategory
  deriving DecidableEq, Repr

namespace ErrorCode

/-- The default-constructed error code. -/
def success : ErrorCode := ⟨0, .system⟩

/-- `asio::error::operation_aborted` (`ERROR_OPERATION_ABORTED`). -/
def operation_aborted : ErrorCode := ⟨995, .system⟩

/-- `asio::error::eof` -/
def eof : ErrorCode := ⟨2, .misc⟩

/-- `asio::error::not_found` -/
def not_found : ErrorCode := ⟨3, .misc⟩

@[simp] theorem success_value : success.value = 0 := rfl
@[simp] theorem operation_aborted_value : operation_aborted.value = 995 := rfl
@[simp] theorem eof_value : eof.value = 2 := rfl
@[simp] theorem not_found_value : not_found.value = 3 := rfl

end ErrorCode

end AsioStudy
