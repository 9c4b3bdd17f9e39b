import Mathlib
import SplitNN.Shared.Flags

set_option autoImplicit false

-- The agent's command line.
namespace SplitNN.Agent

open GoFlag
open Text (intLimit itoa)

structure Args where
  operation : List Char := []
  backboneNsNum : Int := 1
  algorithm : List Char := "naive".toList
  topofile : List Char := []
  mntDir : List Char := []
  execConfigFile : List Char := []
  linkManagerType : List Char := "ntlbr".toList
  nodeManagerType : List Char := "cctr".toList
  disableIpv6 : Int := 0
  parallel : Int := 0
  serverConfigFile : List Char := "server_config.json".toList
  serverID : Int := 0
  S : Int := 0
  P : Int := 0
  Q : Int := 0
  deriving DecidableEq

def operationFlag : Flag Args :=
  stringVar ['o'] (fun text args => { args with operation := text }) Args.operation

def algorithmFlag : Flag Args :=
  stringVar ['a'] (fun text args => { args with algorithm := text }) Args.algorithm

def topofileFlag : Flag Args :=
  stringVar ['t'] (fun text args => { args with topofile := text }) Args.topofile

def mntDirFlag : Flag Args :=
  stringVar ['m'] (fun text args => { args with mntDir := text }) Args.mntDir

def execConfigFileFlag : Flag Args :=
  stringVar ['e'] (fun text args => { args with execConfigFile := text }) Args.execConfigFile

def linkManagerTypeFlag : Flag Args :=
  stringVar ['l'] (fun text args => { args with linkManagerType := text }) Args.linkManagerType

def nodeManagerTypeFlag : Flag Args :=
  stringVar ['N'] (fun text args => { args with nodeManagerType := text }) Args.nodeManagerType

def serverConfigFileFlag : Flag Args :=
  stringVar ['s'] (fun text args => { args with serverConfigFile := text }) Args.serverConfigFile

def backboneNsNumFlag : Flag Args :=
  intVar ['b'] (fun n args => { args with backboneNsNum := n }) Args.backboneNsNum

def disableIpv6Flag : Flag Args :=
  intVar ['d'] (fun n args => { args with disableIpv6 := n }) Args.disableIpv6

def parallelFlag : Flag Args :=
  intVar ['p'] (fun n args => { args with parallel := n }) Args.parallel

def serverIDFlag : Flag Args :=
  intVar ['i'] (fun n args => { args with serverID := n }) Args.serverID

def sFlag : Flag Args :=
  intVar ['S'] (fun n args => { args with S := n }) Args.S

def pFlag : Flag Args :=
  intVar ['P'] (fun n args => { args with P := n }) Args.P

def qFlag : Flag Args :=
  intVar ['Q'] (fun n args => { args with Q := n }) Args.Q

def stringFlags : List (Flag Args) := [
  operationFlag, algorithmFlag, topofileFlag, mntDirFlag, execConfigFileFlag,
  linkManagerTypeFlag, nodeManagerTypeFlag, serverConfigFileFlag]

def intFlags : List (Flag Args) := [
  backboneNsNumFlag, disableIpv6Flag, parallelFlag, serverIDFlag, sFlag, pFlag, qFlag]

def flags : List (Flag Args) := stringFlags ++ intFlags

-- How the process ends when its arguments are refused: by `flag.Parse`, or with a message.
inductive Refusal where
  | flag (failure : Failure)
  | message (text : String)
  deriving DecidableEq

def notify (missing : Bool) (what : String) : Except Refusal Unit :=
  if missing then .error (.message ("Please notify " ++ what)) else .ok ()

def checkOperation (args : Args) : Except Refusal Unit :=
  if args.operation = "setup".toList ∨ args.operation = "clean".toList then do
    notify (args.algorithm = []) "ALGORITHM"
    notify (args.topofile = []) "TOPOFILE"
  else if args.operation = "node-measure".toList then do
    notify (args.P = 0) "argument P"
    notify (args.Q = 0) "argument Q"
    notify (args.S = 0) "argument S"
  else if args.operation = "link-measure".toList then do
    notify (args.P = 0) "argument P"
    notify (args.S = 0) "argument S"
  else if args.operation = "bbns-measure".toList then do
    notify (args.P = 0) "argument P"
    notify (args.S = 0) "argument S"
  else if args.operation = "const-measure".toList then
    notify (args.S = 0) "argument S"
  else .error (.message ("Invalid OPERATION " ++ String.ofList args.operation))

def checkArgs (args : Args) : Except Refusal Unit := do
  checkOperation args
  notify (args.linkManagerType = []) "LINK_MANAGER"
  notify (args.nodeManagerType = []) "NODE_MANAGER"

-- `osArgs` is `os.Args` without the program's name; operands are ignored.
def parseArgs (osArgs : List (List Char)) : Except Refusal Args :=
  match parse flags osArgs {} with
  | .error failure => .error (.flag failure)
  | .ok (args, _) => do
    checkArgs args
    return args

section Flags

theorem flags_proper : ∀ flag ∈ flags, ProperName flag.name := by
  have names : ∀ name ∈ flags.map Flag.name, name ≠ [] ∧ name.head? ≠ some '-' ∧ '=' ∉ name := by
    decide
  intro flag member
  have proper := names flag.name (List.mem_map_of_mem member)
  exact ⟨proper.1, proper.2.1, proper.2.2⟩

theorem put_kept {flag other : Flag Args} (member : flag ∈ flags) (listed : other ∈ flags)
    (different : other.name ≠ flag.name) (value : List Char) (args args' : Args)
    (set : flag.set value args = some args') : other.string args' = other.string args := by
  simp only [flags, stringFlags, intFlags, List.cons_append, List.nil_append, List.mem_cons,
    List.not_mem_nil, or_false] at member listed
  -- Every flag writes a field of its own.
  rcases member with rfl | rfl | rfl | rfl | rfl | rfl | rfl | rfl | integer
  case inr.inr.inr.inr.inr.inr.inr.inr =>
    rcases integer with rfl | rfl | rfl | rfl | rfl | rfl | rfl <;>
      (obtain ⟨n, rfl⟩ := intVar_put set
       rcases listed with rfl | rfl | rfl | rfl | rfl | rfl | rfl | rfl | rfl | rfl | rfl | rfl |
         rfl | rfl | rfl <;>
       first | rfl | exact absurd rfl different)
  all_goals
    cases set
    rcases listed with rfl | rfl | rfl | rfl | rfl | rfl | rfl | rfl | rfl | rfl | rfl | rfl | rfl |
      rfl | rfl <;> first | rfl | exact absurd rfl different

theorem flags_separate : Separate flags where
  distinct := by decide
  others := fun _ member _ listed different => put_kept member listed different

theorem stringFlags_store {flag : Flag Args} (member : flag ∈ stringFlags) (value : List Char) :
    flag.Stores value := by
  simp only [stringFlags, List.mem_cons, List.not_mem_nil, or_false] at member
  rcases member with rfl | rfl | rfl | rfl | rfl | rfl | rfl | rfl <;>
    exact stringVar_stores (fun _ _ => rfl) value

theorem intFlags_store {flag : Flag Args} (member : flag ∈ intFlags) {n : Int}
    (low : -intLimit ≤ n) (high : n < intLimit) : flag.Stores (itoa n) := by
  simp only [intFlags, List.mem_cons, List.not_mem_nil, or_false] at member
  rcases member with rfl | rfl | rfl | rfl | rfl | rfl | rfl <;>
    exact intVar_stores (fun _ _ => rfl) low high

end Flags

end SplitNN.Agent
