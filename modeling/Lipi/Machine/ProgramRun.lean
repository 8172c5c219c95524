import Lipi.Text.Utf8

/-!
# Program runs

What is seen from outside of a program that was started: whether it took its input, what it wrote,
and how it ended.
-/

namespace Lipi

/-- How a program ended. -/
inductive ExitStatus where
  | code (number : Nat)
  | signal (number : Nat) (dumpedCore : Bool)
  deriving DecidableEq, Repr

namespace ExitStatus

def isSuccess (status : ExitStatus) : Bool :=
  status = code 0

/-- The signals that have names. Those above 31 are real-time signals, known by number only. -/
def signals : List (Nat × String) :=
  [(1, "HUP"), (2, "INT"), (3, "QUIT"), (4, "ILL"), (5, "TRAP"), (6, "ABRT"), (7, "BUS"),
   (8, "FPE"), (9, "KILL"), (10, "USR1"), (11, "SEGV"), (12, "USR2"), (13, "PIPE"), (14, "ALRM"),
   (15, "TERM"), (16, "STKFLT"), (17, "CHLD"), (18, "CONT"), (19, "STOP"), (20, "TSTP"),
   (21, "TTIN"), (22, "TTOU"), (23, "URG"), (24, "XCPU"), (25, "XFSZ"), (26, "VTALRM"),
   (27, "PROF"), (28, "WINCH"), (29, "IO"), (30, "PWR"), (31, "SYS")]

def render : ExitStatus → String
  | .code number => "exit status: " ++ toString number
  | .signal number dumpedCore =>
    let name := match signals.lookup number with
      | some name => " (SIG" ++ name ++ ")"
      | none => ""
    let core := if dumpedCore then " (core dumped)" else ""
    "signal: " ++ toString number ++ name ++ core

end ExitStatus

/-- A program that was started and has ended. -/
structure ProgramRun where
  /-- Whether all input could be written to the program. -/
  tookInput : Bool
  stdout : Bytes
  stderr : Bytes
  status : ExitStatus
  deriving DecidableEq, Repr

/-- A program: what it does with its arguments and its input. -/
abbrev Executable := (arguments : List String) → (input : Bytes) → ProgramRun

/-- What a pipe holds that nobody reads from. -/
def pipeCapacity : Nat := 65536

end Lipi
