/-
  How a program that was run has ended.

  * `signalNames` lists the signals that can end a program, by number.
  * `exitStatusText n` says how a program with status `n` has ended. A negative status is the number of
    the signal that ended it; every other status is the one that the program gave itself.
-/
namespace Corrections

/-- The signals with a name, in increasing order. The real-time signals are named by their first and
their last one only. -/
def signalNames : List (Nat × String) := [
  (1, "SIGHUP"), (2, "SIGINT"), (3, "SIGQUIT"), (4, "SIGILL"), (5, "SIGTRAP"), (6, "SIGABRT"),
  (7, "SIGBUS"), (8, "SIGFPE"), (9, "SIGKILL"), (10, "SIGUSR1"), (11, "SIGSEGV"), (12, "SIGUSR2"),
  (13, "SIGPIPE"), (14, "SIGALRM"), (15, "SIGTERM"), (16, "SIGSTKFLT"), (17, "SIGCHLD"),
  (18, "SIGCONT"), (19, "SIGSTOP"), (20, "SIGTSTP"), (21, "SIGTTIN"), (22, "SIGTTOU"),
  (23, "SIGURG"), (24, "SIGXCPU"), (25, "SIGXFSZ"), (26, "SIGVTALRM"), (27, "SIGPROF"),
  (28, "SIGWINCH"), (29, "SIGIO"), (30, "SIGPWR"), (31, "SIGSYS"), (34, "SIGRTMIN"),
  (64, "SIGRTMAX")]

/-- A signal as messages show it. -/
def signalText (n : Nat) : String :=
  match signalNames.lookup n with
  | some name => "<Signals." ++ name ++ ": " ++ toString n ++ ">"
  | none => "unknown signal " ++ toString n

/-- How a program with the given status has ended. -/
def exitStatusText (status : Int) : String :=
  if status < 0 then "died with " ++ signalText status.natAbs
  else "returned non-zero exit status " ++ toString status

end Corrections
