/-!
# MachineInterface.Engine.Signal

The names of signals by their Linux numbers.
-/

namespace MachineInterface.Signal

/-- The names of the signals 1, 2, and so on. -/
def names : List String :=
  ["SIGHUP", "SIGINT", "SIGQUIT", "SIGILL", "SIGTRAP", "SIGABRT", "SIGBUS", "SIGFPE",
    "SIGKILL", "SIGUSR1", "SIGSEGV", "SIGUSR2", "SIGPIPE", "SIGALRM", "SIGTERM", "SIGSTKFLT",
    "SIGCHLD", "SIGCONT", "SIGSTOP", "SIGTSTP", "SIGTTIN", "SIGTTOU", "SIGURG", "SIGXCPU",
    "SIGXFSZ", "SIGVTALRM", "SIGPROF", "SIGWINCH", "SIGIO", "SIGPWR", "SIGSYS"]

/-- The name of a signal, if its number has one. -/
def name? (number : Int) : Option String :=
  if 1 ≤ number then names[number.toNat - 1]? else none

/-- What the signals that users meet most often mean. -/
def meaning? : String → Option String
  | "SIGINT" => some "Interrupt"
  | "SIGSTOP" => some "Stop"
  | "SIGSEGV" => some "Segmentation fault"
  | _ => none

/-- The signal of a trap. -/
def trap : Int := 5

end MachineInterface.Signal
