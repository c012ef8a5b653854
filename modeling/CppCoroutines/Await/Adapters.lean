import CppCoroutines.Asio
import CppCoroutines.Coroutine

/-!
# Awaiters over Asio

`await_adapters.h` and `future_adapter.h`: what a `co_await` on an Asio operation
gives back to the coroutine or throws into it, and what becomes of an exception
that leaves the coroutine. An awaiter starts its operation when it suspends and
its completion handler resumes the coroutine, so that between two suspensions
exactly one operation is outstanding.
-/

namespace CppCoroutines

/-- What the coroutines throw: `std::system_error`, which is `asio::system_error`
too, or `std::runtime_error`. -/
inductive Thrown where
  | system (err : ErrorCode)
  | runtime (what : String)
deriving DecidableEq, Repr

/-- A line on `std::cerr`: a fixed text, then the message of what was thrown. -/
structure LogLine where
  text : String
  thrown : Thrown
deriving DecidableEq, Repr

/-- What the promise of a `std::future` is set to. -/
inductive Outcome (α : Type) where
  | value (a : α)
  | exception (e : Thrown)
deriving DecidableEq, Repr

/-- The operation a session waits for. -/
inductive SessionOp where
  | connect
  | readSome
  | write (length : ℕ)
deriving DecidableEq, Repr

/-- How an operation completes: its error code, and the bytes that were read or how many
were written. -/
inductive SessionReply where
  | connected (err : Option ErrorCode)
  | read (err : Option ErrorCode) (chunk : List Byte)
  | wrote (err : Option ErrorCode) (transferred : ℕ)
deriving DecidableEq, Repr

/-! ## `await_resume` -/

/-- `async_write(...).await_resume()`: what it prints, and the number of bytes or what
it throws. -/
def awaitWrite (err : Option ErrorCode) (n : ℕ) : List LogLine × Except Thrown ℕ :=
  match err with
  | some err => ([⟨"Error in async_write: ", .system err⟩], .error (.system err))
  | none => ([], .ok n)

/-- `async_read_some(...).await_resume()`: an end of file is thrown but not printed. -/
def awaitReadSome (err : Option ErrorCode) (n : ℕ) : List LogLine × Except Thrown ℕ :=
  match err with
  | some err =>
      (if err ≠ .eof then [⟨"Error in async_read_some: ", .system err⟩] else [],
        .error (.system err))
  | none => ([], .ok n)

/-- `async_accept(...).await_resume()` and `async_connect(...).await_resume()`. -/
def awaitDone (err : Option ErrorCode) : Except Thrown Unit :=
  match err with
  | some err => .error (.system err)
  | none => .ok ()

end CppCoroutines
