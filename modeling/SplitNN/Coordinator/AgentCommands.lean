import Mathlib
import SplitNN.Coordinator.TopoFilename
import SplitNN.Shared.Flags

set_option autoImplicit false

-- The commands that the coordinator sends to its agents.
namespace SplitNN.Coordinator

open GoFlag (render)
open Shell (Clean Plain Word special splitWords plain_append)
open Text (itoa)

section Model

-- Option values are the texts that an f-string writes for them.
abbrev Options := Dict (List Char) (List Char)

structure Server where
  ipAddr : String
  agentWorkDir : String

structure AgentCommand where
  command : List Char
  workDir : String
  outputFile : Option String := none
  useSudo : Bool := true

def agentBinPath : List Char := "bin/splitnn_agent".toList

def agentTopoDir : String := "tmp/topo"

def optionText (option : List Char × List Char) : List Char :=
  " -".toList ++ option.1 ++ ' ' :: option.2

def getOneVnManageCmd (binPath operation : List Char) (options : Options) : List Char :=
  options.entries.foldl (fun vnManageCmd option => vnManageCmd ++ optionText option)
    (binPath ++ " -o ".toList ++ operation)

-- The options that the coordinator prints a warning about.
def warnedOptions (options : Options) : List (List Char × List Char) :=
  options.entries.filter fun option => ' ' ∈ option.2

def serverOpts (varOpts : Options) (topoArgs : List String) (serverId : Nat) (bbnsNum : Int) :
    Options :=
  ((varOpts.set ['i'] (itoa serverId)).set ['t']
    (osPathJoin agentTopoDir (getSubTopoFilename topoArgs serverId)).toList).set
      ['b'] (itoa bbnsNum)

def addAgentCommand (operation : List Char) (server : Server) (opts : Options)
    (commands : Dict String AgentCommand) : Dict String AgentCommand :=
  commands.set server.ipAddr
    { command := getOneVnManageCmd agentBinPath operation opts, workDir := server.agentWorkDir }

def generateAgentCommands (varOpts : Options) (topoArgs : List String)
    (vmConfigList : List Server) (serverid2bbnsnum : Dict Nat Int) :
    Option (Dict String AgentCommand × Dict String AgentCommand) :=
  vmConfigList.zipIdx.foldlM (fun commands (server, serverId) => do
    let bbnsNum ← serverid2bbnsnum.get? serverId
    let opts := serverOpts varOpts topoArgs serverId bbnsNum
    return (addAgentCommand "setup".toList server opts commands.1,
      addAgentCommand "clean".toList server opts commands.2)) (Dict.empty, Dict.empty)

-- The file that each server is sent, and where it is put.
def distributeSubTopoToVms (topo : List String) (fullTopoFilepath : String)
    (vmConfigList : List Server) : Dict String (String × String) :=
  vmConfigList.zipIdx.foldl (fun paths (server, i) =>
    let subTopoFilename := getSubTopoFilename topo i
    paths.set server.ipAddr
      (osPathJoin (osPathDirname fullTopoFilepath) subTopoFilename,
        osPathJoin (osPathJoin server.agentWorkDir agentTopoDir) subTopoFilename)) Dict.empty

end Model

section Commands

theorem getOneVnManageCmd_eq (binPath operation : List Char) (options : Options) :
    getOneVnManageCmd binPath operation options =
      binPath ++ " -o ".toList ++ operation ++ options.entries.flatMap optionText := by
  unfold getOneVnManageCmd
  generalize binPath ++ " -o ".toList ++ operation = start
  induction options.entries generalizing start with
  | nil => simp
  | cons option rest ih => simp [ih]

/-- A command line splits into its options, up to a value that goes on after a blank. -/
theorem splitWords_options {first : List Char} (word : Word first)
    {options : List (List Char × List Char)} (names : ∀ option ∈ options, ' ' ∉ option.1)
    (values : ∀ option ∈ options, Word option.2) {more : List Char}
    (blank : more = [] ∨ more.head? = some ' ') :
    splitWords (first ++ options.flatMap optionText ++ more) =
      first :: render options ++ splitWords more := by
  induction options generalizing first with
  | nil =>
    rcases blank with rfl | blank
    · simp [render, Shell.splitWords_word word, Shell.splitWords_nil]
    · obtain ⟨later, rfl⟩ := List.head?_eq_some_iff.mp blank
      simp [render, Shell.splitWords_cons word, Shell.splitWords_blank]
  | cons option later ih =>
    have dashed : Word ('-' :: option.1) := ⟨by simp, by simp [names option (by simp)]⟩
    have rest := ih (values option (by simp))
      (fun other member => names other (List.mem_cons_of_mem _ member))
      (fun other member => values other (List.mem_cons_of_mem _ member))
    have text : first ++ (option :: later).flatMap optionText ++ more =
        first ++ ' ' :: (('-' :: option.1) ++
          ' ' :: (option.2 ++ later.flatMap optionText ++ more)) := by
      simp [optionText]
    rw [text, Shell.splitWords_cons word, Shell.splitWords_cons dashed, rest]
    simp [render]

theorem itoa_clean (n : Int) : Clean (itoa n) := by
  have digits : ∀ c ∈ ' ' :: special, c ≠ '-' ∧ c.isDigit = false := by simp [special]
  have outside : ∀ c ∈ itoa n, c ∉ ' ' :: special := by
    intro c member among
    rcases Text.itoa_chars member with minus | digit
    · exact (digits c among).1 minus
    · rw [(digits c among).2] at digit
      cases digit
  intro c member
  simpa using outside c member

theorem subTopoFilename_clean {topoArgs : List String} (clean : ∀ arg ∈ topoArgs, Clean arg.toList)
    (i : Nat) : Clean (getSubTopoFilename topoArgs i).toList := by
  rw [getSubTopoFilename_eq]
  simp only [String.toList_append, String.toList_intercalate, Shell.clean_append]
  have digits : (toString i).toList = itoa i := Nat.toList_repr
  refine ⟨⟨⟨Shell.clean_intercalate (by decide) ?_, by decide⟩, digits ▸ itoa_clean i⟩, by decide⟩
  intro part member
  obtain ⟨arg, listed, rfl⟩ := List.mem_map.mp member
  exact clean arg listed

theorem subTopoPath_clean {topoArgs : List String} (clean : ∀ arg ∈ topoArgs, Clean arg.toList)
    (i : Nat) : (osPathJoin agentTopoDir (getSubTopoFilename topoArgs i)).toList ≠ [] ∧
      Clean (osPathJoin agentTopoDir (getSubTopoFilename topoArgs i)).toList := by
  have name := subTopoFilename_clean clean i
  unfold osPathJoin
  split
  next absolute =>
    refine ⟨?_, name⟩
    intro empty
    simp [empty] at absolute
  next =>
    rw [if_neg (by decide)]
    simp only [String.toList_append, Shell.clean_append]
    exact ⟨by simp [agentTopoDir], ⟨by decide, by decide⟩, name⟩

theorem options_plain {options : List (List Char × List Char)}
    (plain : ∀ option ∈ options, Plain option.1 ∧ Plain option.2) :
    Plain (options.flatMap optionText) := by
  intro c member
  obtain ⟨option, listed, inside⟩ := List.mem_flatMap.mp member
  have parts : Plain (optionText option) := by
    rw [optionText, plain_append, plain_append, show ' ' :: option.2 = [' '] ++ option.2 from rfl,
      plain_append]
    exact ⟨⟨by simp [Plain, special], (plain option listed).1⟩, by simp [Plain, special],
      (plain option listed).2⟩
  exact parts c inside

end Commands

section Generated

variable {varOpts : Options} {topoArgs : List String} {vmConfigList : List Server}
  {serverid2bbnsnum : Dict Nat Int} {numbers : Nat → Int}

def commandOf (operation : List Char) (varOpts : Options) (topoArgs : List String)
    (numbers : Nat → Int) (server : Server) (serverId : Nat) : AgentCommand where
  command := getOneVnManageCmd agentBinPath operation
    (serverOpts varOpts topoArgs serverId (numbers serverId))
  workDir := server.agentWorkDir

def commandsOf (operation : List Char) (varOpts : Options) (topoArgs : List String)
    (numbers : Nat → Int) (servers : List (Server × Nat)) : Dict String AgentCommand :=
  Dict.ofEntries (servers.map fun pair =>
    (pair.1.ipAddr, commandOf operation varOpts topoArgs numbers pair.1 pair.2))

theorem foldl_commandsOf (operation : List Char) (servers : List (Server × Nat)) :
    commandsOf operation varOpts topoArgs numbers servers =
      servers.foldl (fun commands pair => addAgentCommand operation pair.1
        (serverOpts varOpts topoArgs pair.2 (numbers pair.2)) commands) Dict.empty := by
  rw [commandsOf, Dict.ofEntries, List.foldl_map]
  rfl

theorem generateAgentCommands_eq
    (numbered : ∀ id < vmConfigList.length, serverid2bbnsnum.get? id = some (numbers id)) :
    generateAgentCommands varOpts topoArgs vmConfigList serverid2bbnsnum =
      some (commandsOf "setup".toList varOpts topoArgs numbers vmConfigList.zipIdx,
        commandsOf "clean".toList varOpts topoArgs numbers vmConfigList.zipIdx) := by
  have inside : ∀ pair ∈ vmConfigList.zipIdx,
      serverid2bbnsnum.get? pair.2 = some (numbers pair.2) :=
    fun pair member => numbered pair.2 (List.snd_lt_of_mem_zipIdx member)
  rw [foldl_commandsOf, foldl_commandsOf, generateAgentCommands]
  generalize (Dict.empty : Dict String AgentCommand) = setup
  generalize vmConfigList.zipIdx = servers at inside
  have run : ∀ commands : Dict String AgentCommand × Dict String AgentCommand,
      servers.foldlM (fun commands pair => do
        let bbnsNum ← serverid2bbnsnum.get? pair.2
        let opts := serverOpts varOpts topoArgs pair.2 bbnsNum
        return (addAgentCommand "setup".toList pair.1 opts commands.1,
          addAgentCommand "clean".toList pair.1 opts commands.2)) commands =
      some (servers.foldl (fun commands pair => addAgentCommand "setup".toList pair.1
          (serverOpts varOpts topoArgs pair.2 (numbers pair.2)) commands) commands.1,
        servers.foldl (fun commands pair => addAgentCommand "clean".toList pair.1
          (serverOpts varOpts topoArgs pair.2 (numbers pair.2)) commands) commands.2) := by
    induction servers with
    | nil => exact fun _ => rfl
    | cons pair rest ih =>
      intro commands
      rw [List.foldlM_cons, inside pair (by simp)]
      exact ih (fun other member => inside other (List.mem_cons_of_mem _ member)) _
  exact run (setup, setup)

end Generated

end SplitNN.Coordinator
