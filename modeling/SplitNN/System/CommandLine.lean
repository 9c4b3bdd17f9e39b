import Mathlib
import SplitNN.Agent.Args
import SplitNN.Coordinator.AgentCommands

set_option autoImplicit false

-- What the agents read of the commands that the coordinator sends them.
namespace SplitNN.System

open Agent Coordinator GoFlag
open Shell (Clean Plain Word splitWords)
open Text (intLimit itoa)

-- The agent that a command starts: the first word is its program.
def agentArgs (command : List Char) : Option (Except Refusal Args) := do
  let argv ← Shell.words command
  return parseArgs argv.tail

-- A value that the agent takes for an option, in the form in which it would show it.
def Accepts (name value : List Char) : Prop :=
  (name ∈ stringFlags.map Flag.name ∧ value ≠ [] ∧ Clean value) ∨
    (name ∈ intFlags.map Flag.name ∧ ∃ n : Int, value = itoa n ∧ -intLimit ≤ n ∧ n < intLimit)

section Options

theorem Accepts.flag {name value : List Char} (accepts : Accepts name value) :
    ∃ flag ∈ flags, flag.name = name ∧ flag.Stores value := by
  rcases accepts with ⟨text, -, -⟩ | ⟨integer, n, rfl, low, high⟩
  · obtain ⟨flag, member, rfl⟩ := List.mem_map.mp text
    exact ⟨flag, List.mem_append_left _ member, rfl, stringFlags_store member value⟩
  · obtain ⟨flag, member, rfl⟩ := List.mem_map.mp integer
    exact ⟨flag, List.mem_append_right _ member, rfl, intFlags_store member low high⟩

theorem Accepts.value {name value : List Char} (accepts : Accepts name value) :
    value ≠ [] ∧ Clean value := by
  rcases accepts with ⟨-, text⟩ | ⟨-, n, rfl, -, -⟩
  · exact text
  · exact ⟨Text.itoa_ne_nil n, itoa_clean n⟩

theorem Accepts.word {name value : List Char} (accepts : Accepts name value) : Word value :=
  ⟨accepts.value.1, accepts.value.2.noBlank⟩

theorem flags_clean : ∀ name ∈ flags.map Flag.name, Clean name := by
  decide

theorem Accepts.name {name value : List Char} (accepts : Accepts name value) : Clean name := by
  obtain ⟨flag, member, rfl, -⟩ := accepts.flag
  exact flags_clean flag.name (List.mem_map_of_mem member)

theorem given_of_accepts {options : List (List Char × List Char)}
    (distinct : (options.map Prod.fst).Nodup)
    (accepted : ∀ option ∈ options, Accepts option.1 option.2) : Given flags options :=
  ⟨distinct, fun option member => (accepted option member).flag⟩

theorem string_ne_nil {options : List (List Char × List Char)} {args : Args}
    (holds : Holds flags options {} args)
    (accepted : ∀ option ∈ options, Accepts option.1 option.2) {flag : Flag Args}
    (member : flag ∈ flags) (default : flag.string {} ≠ []) : flag.string args ≠ [] := by
  by_cases given : flag.name ∈ options.map Prod.fst
  next =>
    obtain ⟨option, listed, name⟩ := List.mem_map.mp given
    rw [holds.given flag member option.2 (by rw [← name]; exact listed)]
    exact (accepted option listed).value.1
  next => rwa [holds.kept flag member given]

structure Reads (operation : List Char) (options : List (List Char × List Char))
    (args : Args) : Prop where
  holds : Holds flags ((['o'], operation) :: options) {} args
  filled : ∀ flag ∈ flags, flag.string {} ≠ [] → flag.string args ≠ []

/-- The agent reads the options up to a value that goes on after a blank; when nothing follows it
or an operand does, it stops there. -/
theorem agentArgs_command {operation : List Char} (some_operation : operation ≠ [])
    (clean : Clean operation) {options : List (List Char × List Char)}
    (distinct : (options.map Prod.fst).Nodup) (own : ['o'] ∉ options.map Prod.fst)
    (accepted : ∀ option ∈ options, Accepts option.1 option.2) (more : List Char)
    (blank : more = [] ∨ more.head? = some ' ') (plain : Plain more)
    (stops : ∀ args, ∃ left, parse flags (splitWords more) args = .ok (args, left)) :
    ∃ args, Reads operation options args ∧
      agentArgs (agentBinPath ++ " -o ".toList ++ operation ++ options.flatMap optionText ++ more) =
        some (checkArgs args >>= fun _ => .ok args) := by
  have accepted' : ∀ option ∈ (['o'], operation) :: options, Accepts option.1 option.2 := by
    intro option member
    rcases List.mem_cons.mp member with rfl | later
    · exact .inl ⟨(by decide : ['o'] ∈ stringFlags.map Flag.name), some_operation, clean⟩
    · exact accepted option later
  have distinct' : (((['o'], operation) :: options).map Prod.fst).Nodup := by
    rw [List.map_cons, List.nodup_cons]
    exact ⟨own, distinct⟩
  obtain ⟨args, parsed, holds⟩ := parse_render flags_separate flags_proper
    (given_of_accepts distinct' accepted') (splitWords more) {}
  obtain ⟨left, stopped⟩ := stops args
  have text : agentBinPath ++ " -o ".toList ++ operation ++ options.flatMap optionText ++ more =
      agentBinPath ++ ((['o'], operation) :: options).flatMap optionText ++ more := by
    simp [optionText]
  have bin : Clean agentBinPath := by decide
  have plain' : Plain (agentBinPath ++ ((['o'], operation) :: options).flatMap optionText ++
      more) := by
    rw [Shell.plain_append, Shell.plain_append]
    exact ⟨⟨bin.plain, options_plain fun option member =>
      ⟨(accepted' option member).name.plain, (accepted' option member).value.2.plain⟩⟩, plain⟩
  have words := splitWords_options ⟨by decide, bin.noBlank⟩
    (fun option member => (accepted' option member).name.noBlank)
    (fun option member => (accepted' option member).word) blank
  refine ⟨args, ⟨holds, fun flag => string_ne_nil holds accepted'⟩, ?_⟩
  rw [text, agentArgs, Shell.words, if_pos plain', words, List.cons_append]
  simp only [Option.bind_eq_bind, Option.bind_some, List.tail_cons, parseArgs, parsed, stopped]
  rfl

end Options

section Own

-- The coordinator sets these for each agent.
def ownOptions : List (List Char) := [['i'], ['t'], ['b']]

structure ProperOptions (varOpts : Options) : Prop where
  operation : ['o'] ∉ varOpts.keys
  accepted : ∀ name value, varOpts.get? name = some value → name ∉ ownOptions → Accepts name value

def subTopoPath (topoArgs : List String) (serverId : Nat) : List Char :=
  (osPathJoin agentTopoDir (getSubTopoFilename topoArgs serverId)).toList

/-- An agent runs the operation as its own server, on the file it was sent, with the options that
were asked for and the defaults for the others. -/
structure Runs (operation : List Char) (varOpts : Options) (workDir : String) (serverId : Nat)
    (bbnsNum : Int) (file : String) (args : Args) : Prop where
  operation : args.operation = operation
  serverID : args.serverID = serverId
  backboneNsNum : args.backboneNsNum = bbnsNum
  opened : osPathJoin workDir (String.ofList args.topofile) = file
  given : ∀ flag ∈ flags, flag.name ∉ ownOptions → ∀ value,
    varOpts.get? flag.name = some value → flag.string args = value
  default : ∀ flag ∈ flags, flag.name ∉ ['o'] :: ownOptions → flag.name ∉ varOpts.keys →
    flag.string args = flag.string {}

variable {varOpts : Options} {topoArgs : List String}

theorem serverOpts_get? (varOpts : Options) (topoArgs : List String) (serverId : Nat)
    (bbnsNum : Int) (name : List Char) :
    (serverOpts varOpts topoArgs serverId bbnsNum).get? name =
      if name = ['b'] then some (itoa bbnsNum)
      else if name = ['t'] then some (subTopoPath topoArgs serverId)
      else if name = ['i'] then some (itoa serverId)
      else varOpts.get? name := by
  simp only [serverOpts, Dict.get?_set, subTopoPath]

theorem serverOpts_accepts (clean : ∀ arg ∈ topoArgs, Clean arg.toList) {serverId : Nat}
    (few : serverId < intLimit) {bbnsNum : Int} (low : -intLimit ≤ bbnsNum)
    (high : bbnsNum < intLimit) {name value : List Char}
    (found : (serverOpts varOpts topoArgs serverId bbnsNum).get? name = some value)
    (given : name ∉ ownOptions → varOpts.get? name = some value → Accepts name value) :
    Accepts name value := by
  rw [serverOpts_get?] at found
  split at found
  next same =>
    rw [same, ← Option.some.inj found]
    exact .inr ⟨by decide, bbnsNum, rfl, low, high⟩
  next notB =>
    split at found
    next same =>
      rw [same, ← Option.some.inj found]
      exact .inl ⟨by decide, subTopoPath_clean clean serverId⟩
    next notT =>
      split at found
      next same =>
        rw [same, ← Option.some.inj found]
        exact .inr ⟨by decide, serverId, rfl, by unfold intLimit; omega, by exact_mod_cast few⟩
      next notI => exact given (by simp [ownOptions, notI, notT, notB]) found

theorem serverOpts_keys (absent : ['o'] ∉ varOpts.keys) (topoArgs : List String) (serverId : Nat)
    (bbnsNum : Int) : ['o'] ∉ (serverOpts varOpts topoArgs serverId bbnsNum).keys := by
  simp [serverOpts, Dict.mem_keys_set, absent]

theorem osPathJoin_nested (path : String) {name : String}
    (relative : name.toList.head? ≠ some '/') :
    osPathJoin (path ++ agentTopoDir) name = path ++ agentTopoDir ++ "/" ++ name := by
  have last : (path ++ agentTopoDir).toList.getLast? = some 'o' := by
    simp [agentTopoDir]
  have some_path : path ++ agentTopoDir ≠ "" := by
    intro empty
    simp [empty] at last
  rw [osPathJoin, if_neg relative, if_neg]
  rw [last]
  simp [some_path]

-- The agent's path is relative to its directory, the coordinator's is not.
theorem osPathJoin_agentTopoDir (workDir name : String) :
    osPathJoin (osPathJoin workDir agentTopoDir) name =
      osPathJoin workDir (osPathJoin agentTopoDir name) := by
  by_cases absolute : name.toList.head? = some '/'
  next => simp [osPathJoin, absolute]
  next =>
    have inner : osPathJoin agentTopoDir name = agentTopoDir ++ "/" ++ name := by
      simpa using osPathJoin_nested "" absolute
    have head : (agentTopoDir ++ "/" ++ name).toList.head? ≠ some '/' := by simp [agentTopoDir]
    have dirHead : agentTopoDir.toList.head? ≠ some '/' := by decide
    simp only [inner, osPathJoin.eq_1 workDir, if_neg head, if_neg dirHead]
    split <;> rw [osPathJoin_nested _ absolute] <;> simp only [String.append_assoc]

theorem notify_ok (what : String) : notify false what = .ok () := rfl

theorem Reads.checked {operation : List Char} {options : List (List Char × List Char)}
    {args : Args} (reads : Reads operation options args)
    (run : args.operation = "setup".toList ∨ args.operation = "clean".toList)
    (topofile : args.topofile ≠ []) : checkArgs args = .ok () := by
  have algorithm : args.algorithm ≠ [] :=
    reads.filled algorithmFlag (by simp [flags, stringFlags]) (by decide)
  have linkManager : args.linkManagerType ≠ [] :=
    reads.filled linkManagerTypeFlag (by simp [flags, stringFlags]) (by decide)
  have nodeManager : args.nodeManagerType ≠ [] :=
    reads.filled nodeManagerTypeFlag (by simp [flags, stringFlags]) (by decide)
  simp only [checkArgs, checkOperation, if_pos run, decide_eq_false algorithm,
    decide_eq_false topofile, decide_eq_false linkManager, decide_eq_false nodeManager, notify_ok]
  rfl

theorem command_runs {operation : List Char}
    (run : operation = "setup".toList ∨ operation = "clean".toList)
    (proper : ProperOptions varOpts) (clean : ∀ arg ∈ topoArgs, Clean arg.toList)
    {serverId : Nat} (few : serverId < intLimit) {bbnsNum : Int} (low : -intLimit ≤ bbnsNum)
    (high : bbnsNum < intLimit) (workDir : String) :
    ∃ args, agentArgs (getOneVnManageCmd agentBinPath operation
        (serverOpts varOpts topoArgs serverId bbnsNum)) = some (.ok args) ∧
      Runs operation varOpts workDir serverId bbnsNum
        (osPathJoin (osPathJoin workDir agentTopoDir) (getSubTopoFilename topoArgs serverId))
        args := by
  have some_operation : operation ≠ [] ∧ Clean operation := by
    rcases run with rfl | rfl <;> decide
  obtain ⟨args, reads, read⟩ := agentArgs_command some_operation.1 some_operation.2
    (serverOpts varOpts topoArgs serverId bbnsNum).distinct
    (serverOpts_keys proper.operation topoArgs serverId bbnsNum)
    (fun option member => serverOpts_accepts clean few low high
      ((Dict.get?_eq_some _ option.1 option.2).mpr member)
      fun other found => proper.accepted option.1 option.2 found other)
    [] (.inl rfl) (by decide) (fun args => ⟨[], rfl⟩)
  have listed {name value : List Char}
      (found : (serverOpts varOpts topoArgs serverId bbnsNum).get? name = some value) :
      (name, value) ∈ (['o'], operation) ::
        (serverOpts varOpts topoArgs serverId bbnsNum).entries :=
    List.mem_cons_of_mem _ ((Dict.get?_eq_some _ name value).mp found)
  have operationRead : args.operation = operation :=
    reads.holds.given operationFlag (by simp [flags, stringFlags]) operation
      (by simp [operationFlag, stringVar])
  have topofileRead : args.topofile = subTopoPath topoArgs serverId :=
    reads.holds.given topofileFlag (by simp [flags, stringFlags]) _
      (listed (by simp [serverOpts_get?, topofileFlag, stringVar]))
  have serverRead : itoa args.serverID = itoa serverId :=
    reads.holds.given serverIDFlag (by simp [flags, intFlags]) _
      (listed (by simp [serverOpts_get?, serverIDFlag, intVar]))
  have bbnsRead : itoa args.backboneNsNum = itoa bbnsNum :=
    reads.holds.given backboneNsNumFlag (by simp [flags, intFlags]) _
      (listed (by simp [serverOpts_get?, backboneNsNumFlag, intVar]))
  have checked := reads.checked (operationRead.symm ▸ run)
    (by rw [topofileRead]; exact (subTopoPath_clean clean serverId).1)
  refine ⟨args, ?_, operationRead, Text.itoa_injective serverRead, Text.itoa_injective bbnsRead,
    ?_, ?_, ?_⟩
  · rw [getOneVnManageCmd_eq, ← List.append_nil (List.flatMap _ _), ← List.append_assoc, read,
      checked]
    rfl
  · rw [topofileRead, subTopoPath, String.ofList_toList, osPathJoin_agentTopoDir]
  · intro flag member own value given
    apply reads.holds.given flag member value (listed _)
    simp only [ownOptions, List.mem_cons, List.not_mem_nil, or_false, not_or] at own
    rw [serverOpts_get?, if_neg own.2.2, if_neg own.2.1, if_neg own.1, given]
  · intro flag member own absent
    apply reads.holds.kept flag member
    simp only [ownOptions, List.mem_cons, List.not_mem_nil, or_false, not_or] at own
    rw [List.map_cons, List.mem_cons, not_or]
    refine ⟨own.1, ?_⟩
    have keys := (serverOpts varOpts topoArgs serverId bbnsNum).get?_eq_none flag.name
    rw [serverOpts_get?, if_neg own.2.2.2, if_neg own.2.2.1, if_neg own.2.1] at keys
    exact keys.mp ((varOpts.get?_eq_none flag.name).mpr absent)

end Own

section Servers

variable {varOpts : Options} {topoArgs : List String} {vmConfigList : List Server}
  {serverid2bbnsnum : Dict Nat Int}

structure Numbers (vmConfigList : List Server) (serverid2bbnsnum : Dict Nat Int) : Prop where
  few : vmConfigList.length ≤ intLimit
  fits : ∀ id < vmConfigList.length, ∃ n, serverid2bbnsnum.get? id = some n ∧
    -intLimit ≤ n ∧ n < intLimit

theorem addresses_distinct (addresses : (vmConfigList.map Server.ipAddr).Nodup) {ν : Type}
    (f : Server × Nat → ν) :
    ((vmConfigList.zipIdx.map fun pair => (pair.1.ipAddr, f pair)).map Prod.fst).Nodup := by
  have names : (vmConfigList.zipIdx.map fun pair => (pair.1.ipAddr, f pair)).map Prod.fst =
      vmConfigList.map Server.ipAddr := by
    rw [List.map_map, ← List.zipIdx_map_fst 0 vmConfigList, List.map_map, List.zipIdx_map_fst]
    rfl
  rw [names]
  exact addresses

theorem commandsOf_get? (addresses : (vmConfigList.map Server.ipAddr).Nodup)
    (operation : List Char) (varOpts : Options) (topoArgs : List String) (numbers : Nat → Int)
    {id : Nat} {server : Server} (listed : vmConfigList[id]? = some server) :
    (commandsOf operation varOpts topoArgs numbers vmConfigList.zipIdx).get? server.ipAddr =
      some (commandOf operation varOpts topoArgs numbers server id) := by
  rw [commandsOf, Dict.get?_ofEntries (addresses_distinct addresses _), List.mem_map]
  exact ⟨(server, id), List.mk_mem_zipIdx_iff_getElem?.mpr listed, rfl⟩

theorem distributeSubTopoToVms_get? (addresses : (vmConfigList.map Server.ipAddr).Nodup)
    (topo : List String) (fullTopoFilepath : String) {id : Nat} {server : Server}
    (listed : vmConfigList[id]? = some server) :
    (distributeSubTopoToVms topo fullTopoFilepath vmConfigList).get? server.ipAddr =
      some (osPathJoin (osPathDirname fullTopoFilepath) (getSubTopoFilename topo id),
        osPathJoin (osPathJoin server.agentWorkDir agentTopoDir) (getSubTopoFilename topo id)) := by
  have entries : distributeSubTopoToVms topo fullTopoFilepath vmConfigList =
      Dict.ofEntries (vmConfigList.zipIdx.map fun pair => (pair.1.ipAddr,
        osPathJoin (osPathDirname fullTopoFilepath) (getSubTopoFilename topo pair.2),
        osPathJoin (osPathJoin pair.1.agentWorkDir agentTopoDir)
          (getSubTopoFilename topo pair.2))) := by
    rw [Dict.ofEntries, List.foldl_map]
    rfl
  rw [entries, Dict.get?_ofEntries (addresses_distinct addresses _), List.mem_map]
  exact ⟨(server, id), List.mk_mem_zipIdx_iff_getElem?.mpr listed, rfl⟩

theorem Numbers.generated (numbers : Numbers vmConfigList serverid2bbnsnum)
    (varOpts : Options) (topoArgs : List String) :
    generateAgentCommands varOpts topoArgs vmConfigList serverid2bbnsnum =
      some (commandsOf "setup".toList varOpts topoArgs (serverid2bbnsnum.getD · 0)
          vmConfigList.zipIdx,
        commandsOf "clean".toList varOpts topoArgs (serverid2bbnsnum.getD · 0)
          vmConfigList.zipIdx) := by
  apply generateAgentCommands_eq
  intro id inside
  obtain ⟨n, found, -, -⟩ := numbers.fits id inside
  rw [Dict.getD, found, Option.getD_some]

theorem Numbers.bounds (numbers : Numbers vmConfigList serverid2bbnsnum) {id : Nat}
    {server : Server} (listed : vmConfigList[id]? = some server) :
    id < intLimit ∧ -intLimit ≤ serverid2bbnsnum.getD id 0 ∧
      serverid2bbnsnum.getD id 0 < intLimit := by
  obtain ⟨inside, -⟩ := List.getElem?_eq_some_iff.mp listed
  obtain ⟨n, found, low, high⟩ := numbers.fits id inside
  rw [Dict.getD, found, Option.getD_some]
  exact ⟨by have := numbers.few; omega, low, high⟩

def Serves (commands : Dict String AgentCommand) (operation : List Char) (varOpts : Options)
    (server : Server) (id : Nat) (bbnsNum : Int) (file : String) : Prop :=
  ∃ sent args, commands.get? server.ipAddr = some sent ∧ sent.workDir = server.agentWorkDir ∧
    agentArgs sent.command = some (.ok args) ∧
      Runs operation varOpts sent.workDir id bbnsNum file args

theorem commandsOf_serve (proper : ProperOptions varOpts)
    (clean : ∀ arg ∈ topoArgs, Clean arg.toList)
    (addresses : (vmConfigList.map Server.ipAddr).Nodup)
    (numbers : Numbers vmConfigList serverid2bbnsnum) {operation : List Char}
    (run : operation = "setup".toList ∨ operation = "clean".toList) {id : Nat} {server : Server}
    (listed : vmConfigList[id]? = some server) :
    Serves (commandsOf operation varOpts topoArgs (serverid2bbnsnum.getD · 0) vmConfigList.zipIdx)
      operation varOpts server id (serverid2bbnsnum.getD id 0)
      (osPathJoin (osPathJoin server.agentWorkDir agentTopoDir)
        (getSubTopoFilename topoArgs id)) := by
  obtain ⟨few, low, high⟩ := numbers.bounds listed
  obtain ⟨args, read, runs⟩ := command_runs run proper clean few low high server.agentWorkDir
  exact ⟨_, args, commandsOf_get? addresses operation varOpts topoArgs _ listed, rfl, read, runs⟩

/-- Every server's agent reads back what the coordinator asked of it, and opens the file that the
coordinator sent to it. -/
theorem agentCommands_read (proper : ProperOptions varOpts)
    (clean : ∀ arg ∈ topoArgs, Clean arg.toList)
    (addresses : (vmConfigList.map Server.ipAddr).Nodup)
    (numbers : Numbers vmConfigList serverid2bbnsnum) (fullTopoFilepath : String) :
    ∃ setup cleanUp,
      generateAgentCommands varOpts topoArgs vmConfigList serverid2bbnsnum =
        some (setup, cleanUp) ∧
      ∀ id server, vmConfigList[id]? = some server → ∃ bbnsNum source file,
        serverid2bbnsnum.get? id = some bbnsNum ∧
        (distributeSubTopoToVms topoArgs fullTopoFilepath vmConfigList).get? server.ipAddr =
          some (source, file) ∧
        Serves setup "setup".toList varOpts server id bbnsNum file ∧
        Serves cleanUp "clean".toList varOpts server id bbnsNum file := by
  refine ⟨_, _, numbers.generated varOpts topoArgs, fun id server listed => ?_⟩
  obtain ⟨inside, -⟩ := List.getElem?_eq_some_iff.mp listed
  obtain ⟨bbnsNum, found, -, -⟩ := numbers.fits id inside
  have number : serverid2bbnsnum.getD id 0 = bbnsNum := by rw [Dict.getD, found, Option.getD_some]
  refine ⟨bbnsNum, _, _, found,
    distributeSubTopoToVms_get? addresses topoArgs fullTopoFilepath listed, ?_, ?_⟩
  · exact number ▸ commandsOf_serve proper clean addresses numbers (.inl rfl) listed
  · exact number ▸ commandsOf_serve proper clean addresses numbers (.inr rfl) listed

-- Two servers and the options of the experiments.
def sampleVms : List Server :=
  [⟨"10.0.1.1", "/opt/splitnn/agent"⟩, ⟨"10.0.1.2", "/opt/splitnn/agent"⟩]

def sampleBbnsNums : Dict Nat Int := Dict.ofEntries [(0, 2), (1, 3)]

theorem sampleBbnsNums_fit : Numbers sampleVms sampleBbnsNums where
  few := by decide
  fits := by
    intro id inside
    have small : id < 2 := inside
    interval_cases id
    · exact ⟨2, by decide⟩
    · exact ⟨3, by decide⟩

def sampleOpts : Options :=
  Dict.ofEntries [(['t'], "chain".toList), (['s'], "server_config.json".toList), (['p'], ['4'])]

theorem sampleOpts_proper : ProperOptions sampleOpts where
  operation := by decide
  accepted := by
    intro name value found own
    have member := Dict.mem_of_get?_ofEntries found
    simp only [List.mem_cons, List.not_mem_nil, or_false, Prod.mk.injEq] at member
    rcases member with ⟨rfl, rfl⟩ | ⟨rfl, rfl⟩ | ⟨rfl, rfl⟩
    · exact absurd (by decide) own
    · exact .inl (by decide)
    · exact .inr ⟨by decide, 4, by decide⟩

theorem agentCommands_read_chain : ∃ setup cleanUp,
    generateAgentCommands sampleOpts ["chain", "5"] sampleVms sampleBbnsNums =
      some (setup, cleanUp) ∧
    ∃ sent args, setup.get? "10.0.1.2" = some sent ∧ agentArgs sent.command = some (.ok args) ∧
      args.serverID = 1 ∧ args.backboneNsNum = 3 ∧
      osPathJoin "/opt/splitnn/agent" (String.ofList args.topofile) =
        "/opt/splitnn/agent/tmp/topo/chain_5.sub1.txt" := by
  obtain ⟨setup, cleanUp, generated, serve⟩ := agentCommands_read sampleOpts_proper
    (by decide : ∀ arg ∈ ["chain", "5"], Clean arg.toList) (by decide) sampleBbnsNums_fit
    "/opt/splitnn/coordinator/topo/chain_5.txt"
  obtain ⟨bbnsNum, source, file, number, sentFile, ⟨sent, args, listed, workDir, read, runs⟩, -⟩ :=
    serve 1 ⟨"10.0.1.2", "/opt/splitnn/agent"⟩ rfl
  obtain rfl : 3 = bbnsNum := Option.some.inj number
  have opened := runs.opened
  rw [workDir] at opened
  have where_sent : file = "/opt/splitnn/agent/tmp/topo/chain_5.sub1.txt" := by
    rw [distributeSubTopoToVms_get? (by decide) ["chain", "5"] _
      (rfl : sampleVms[1]? = some ⟨"10.0.1.2", "/opt/splitnn/agent"⟩)] at sentFile
    exact (Prod.mk.inj (Option.some.inj sentFile)).2.symm.trans (by decide)
  exact ⟨setup, cleanUp, generated, sent, args, listed, read, runs.serverID, runs.backboneNsNum,
    opened.trans where_sent⟩

end Servers

section Cut

variable {varOpts : Options} {topoArgs : List String} {vmConfigList : List Server}
  {serverid2bbnsnum : Dict Nat Int}

/-- The options from the configuration, one of which has a value that goes on with an operand after
a blank; the coordinator prints a warning about it. -/
structure Broken (varOpts : Options) (before : List (List Char × List Char))
    (name first rest : List Char) (after : List (List Char × List Char)) : Prop where
  entries : varOpts.entries = before ++ (name, first ++ ' ' :: rest) :: after
  own : ['o'] ∉ varOpts.keys ∧ ['i'] ∉ varOpts.keys ∧ ['b'] ∉ varOpts.keys
  notTopofile : name ≠ ['t']
  accepted : Accepts name first
  before_accepted : ∀ option ∈ before, option.1 ≠ ['t'] → Accepts option.1 option.2
  plain : ∀ option ∈ varOpts.entries, option.1 ≠ ['t'] → Plain option.1 ∧ Plain option.2
  operand : ∃ c, (rest.dropWhile (· = ' ')).head? = some c ∧ c ≠ '-'

theorem Broken.warned {before after : List (List Char × List Char)} {name first rest : List Char}
    (broken : Broken varOpts before name first rest after) :
    (name, first ++ ' ' :: rest) ∈ warnedOptions varOpts := by
  simp [warnedOptions, broken.entries]

theorem Broken.opts {before after : List (List Char × List Char)} {name first rest : List Char}
    (broken : Broken varOpts before name first rest after) (topoArgs : List String)
    (serverId : Nat) (bbnsNum : Int) :
    ∃ before' after', (serverOpts varOpts topoArgs serverId bbnsNum).entries =
        before' ++ (name, first ++ ' ' :: rest) :: after' ∧
      before'.map Prod.fst = before.map Prod.fst := by
  have key : name ∈ varOpts.keys := by simp [Dict.keys, broken.entries]
  have notI : name ≠ ['i'] := fun same => broken.own.2.1 (same ▸ key)
  have notB : name ≠ ['b'] := fun same => broken.own.2.2 (same ▸ key)
  obtain ⟨front, back, split, names⟩ :=
    Dict.setEntries_split (name, first ++ ' ' :: rest) notI (itoa serverId) before after
  obtain ⟨front', back', split', names'⟩ :=
    Dict.setEntries_split (name, first ++ ' ' :: rest) broken.notTopofile
      (osPathJoin agentTopoDir (getSubTopoFilename topoArgs serverId)).toList front back
  obtain ⟨front'', back'', split'', names''⟩ :=
    Dict.setEntries_split (name, first ++ ' ' :: rest) notB (itoa bbnsNum) front' back'
  refine ⟨front'', back'', ?_, by rw [names'', names', names]⟩
  simp only [serverOpts, Dict.set, broken.entries, split, split', split'']

theorem Broken.opts_accepted {before after before' : List (List Char × List Char)}
    {name first rest : List Char} (broken : Broken varOpts before name first rest after)
    (clean : ∀ arg ∈ topoArgs, Clean arg.toList) {serverId : Nat} (few : serverId < intLimit)
    {bbnsNum : Int} (low : -intLimit ≤ bbnsNum) (high : bbnsNum < intLimit)
    (inside : ∀ option ∈ before', option ∈ (serverOpts varOpts topoArgs serverId bbnsNum).entries)
    (names : before'.map Prod.fst = before.map Prod.fst) :
    ∀ option ∈ before' ++ [(name, first)], Accepts option.1 option.2 := by
  intro option member
  rcases List.mem_append.mp member with early | last
  · apply serverOpts_accepts clean few low high
      ((Dict.get?_eq_some _ option.1 option.2).mpr (inside option early))
    intro other found
    have listed := (varOpts.get?_eq_some option.1 option.2).mp found
    have distinct := varOpts.distinct
    rw [broken.entries] at listed distinct
    rw [List.map_append] at distinct
    have key : option.1 ∈ before.map Prod.fst := names ▸ List.mem_map_of_mem early
    have own : option ∈ before := by
      rcases List.mem_append.mp listed with here | later
      · exact here
      · exact absurd (List.mem_map_of_mem later) (List.disjoint_of_nodup_append distinct key)
    exact broken.before_accepted option own fun same => other (by simp [ownOptions, same])
  · obtain rfl := List.mem_singleton.mp last
    exact broken.accepted

theorem Broken.opts_plain {before after : List (List Char × List Char)}
    {name first rest : List Char} (broken : Broken varOpts before name first rest after)
    (clean : ∀ arg ∈ topoArgs, Clean arg.toList) {serverId : Nat} (few : serverId < intLimit)
    {bbnsNum : Int} (low : -intLimit ≤ bbnsNum) (high : bbnsNum < intLimit) :
    ∀ option ∈ (serverOpts varOpts topoArgs serverId bbnsNum).entries,
      Plain option.1 ∧ Plain option.2 := by
  intro option member
  have found := (Dict.get?_eq_some _ option.1 option.2).mpr member
  by_cases own : option.1 ∈ ownOptions
  next =>
    have accepts := serverOpts_accepts clean few low high found fun other => absurd own other
    exact ⟨accepts.name.plain, accepts.value.2.plain⟩
  next =>
    simp only [ownOptions, List.mem_cons, List.not_mem_nil, or_false, not_or] at own
    rw [serverOpts_get?, if_neg own.2.2, if_neg own.2.1, if_neg own.1] at found
    exact broken.plain option ((varOpts.get?_eq_some option.1 option.2).mp found) own.2.1

theorem Broken.reads {before after : List (List Char × List Char)} {name first rest : List Char}
    (broken : Broken varOpts before name first rest after)
    (clean : ∀ arg ∈ topoArgs, Clean arg.toList) {serverId : Nat} (few : serverId < intLimit)
    {bbnsNum : Int} (low : -intLimit ≤ bbnsNum) (high : bbnsNum < intLimit)
    {operation : List Char} (run : operation = "setup".toList ∨ operation = "clean".toList) :
    ∃ options args, options.map Prod.fst = before.map Prod.fst ++ [name] ∧
      (∀ path, (['t'], path) ∈ options → path = subTopoPath topoArgs serverId) ∧
      Reads operation options args ∧
      agentArgs (getOneVnManageCmd agentBinPath operation
        (serverOpts varOpts topoArgs serverId bbnsNum)) =
          some (checkArgs args >>= fun _ => .ok args) := by
  obtain ⟨before', after', entries, names⟩ := broken.opts topoArgs serverId bbnsNum
  have some_operation : operation ≠ [] ∧ Clean operation := by
    rcases run with rfl | rfl <;> decide
  have distinct := (serverOpts varOpts topoArgs serverId bbnsNum).distinct
  have keys := serverOpts_keys broken.own.1 topoArgs serverId bbnsNum
  have plain := broken.opts_plain clean few low high
  have accepted := broken.opts_accepted clean few low high
    (fun option member => entries ▸ List.mem_append_left _ member) names
  rw [Dict.keys] at keys
  simp only [entries] at distinct keys plain
  have sub : ((before' ++ [(name, first)]).map Prod.fst).Sublist
      ((before' ++ (name, first ++ ' ' :: rest) :: after').map Prod.fst) := by
    simp
  have middle := (plain (name, first ++ ' ' :: rest) (by simp)).2
  have plainRest : Plain (' ' :: rest) := (Shell.plain_append.mp middle).2
  have plainMore : Plain (' ' :: rest ++ after'.flatMap optionText) :=
    Shell.plain_append.mpr ⟨plainRest, options_plain fun option member =>
      plain option (by simp [member])⟩
  have stops (args : Args) : ∃ left, parse flags
      (splitWords (' ' :: rest ++ after'.flatMap optionText)) args = .ok (args, left) := by
    obtain ⟨c, head, notDash⟩ := broken.operand
    have head' : ((rest ++ after'.flatMap optionText).dropWhile (· = ' ')).head? = some c := by
      rw [List.dropWhile_append]
      split
      next empty =>
        rw [List.isEmpty_iff] at empty
        rw [empty] at head
        cases head
      next => rw [List.head?_append, head, Option.some_or]
    obtain ⟨word, more, split, begins⟩ := Shell.splitWords_first head'
    rw [List.cons_append, Shell.splitWords_blank, split]
    exact ⟨word :: more, parse_operand flags more (by simp [begins, notDash]) args⟩
  obtain ⟨args, reads, read⟩ := agentArgs_command some_operation.1 some_operation.2
    (distinct.sublist sub) (fun member => keys (sub.subset member)) accepted
    (' ' :: rest ++ after'.flatMap optionText) (.inr rfl) plainMore stops
  have text : getOneVnManageCmd agentBinPath operation
      (serverOpts varOpts topoArgs serverId bbnsNum) =
      agentBinPath ++ " -o ".toList ++ operation ++
        (before' ++ [(name, first)]).flatMap optionText ++
        (' ' :: rest ++ after'.flatMap optionText) := by
    simp [getOneVnManageCmd_eq, entries, optionText]
  refine ⟨before' ++ [(name, first)], args, by simp [names], ?_, reads, text ▸ read⟩
  intro path member
  rcases List.mem_append.mp member with early | last
  · have found : (serverOpts varOpts topoArgs serverId bbnsNum).get? ['t'] = some path :=
      (Dict.get?_eq_some _ ['t'] path).mpr (entries ▸ List.mem_append_left _ early)
    simpa [serverOpts_get?, eq_comm] using found
  · exact absurd (Prod.mk.inj (List.mem_singleton.mp last)).1.symm broken.notTopofile

/-- An agent that stops reading before the options that the coordinator added. -/
structure CutShort (operation : List Char) (read : List (List Char)) (args : Args) : Prop where
  operation : args.operation = operation
  serverID : args.serverID = 0
  backboneNsNum : args.backboneNsNum = 1
  default : ∀ flag ∈ flags, flag.name ∉ ['o'] :: read → flag.string args = flag.string {}

theorem Broken.cutShort {before after options : List (List Char × List Char)}
    {name first rest operation : List Char} {args : Args}
    (broken : Broken varOpts before name first rest after)
    (names : options.map Prod.fst = before.map Prod.fst ++ [name])
    (reads : Reads operation options args) :
    CutShort operation (before.map Prod.fst ++ [name]) args := by
  have known : ∀ other ∈ before.map Prod.fst ++ [name], other ∈ varOpts.keys := by
    intro other member
    simp only [Dict.keys, broken.entries, List.map_append, List.map_cons]
    rcases List.mem_append.mp member with early | last
    · exact List.mem_append_left _ early
    · exact List.mem_append_right _ (List.mem_singleton.mp last ▸ List.mem_cons_self)
  have unread : ∀ flag ∈ flags, flag.name ∉ ['o'] :: (before.map Prod.fst ++ [name]) →
      flag.string args = flag.string {} := by
    intro flag member absent
    apply reads.holds.kept flag member
    rwa [List.map_cons, names]
  have server : itoa args.serverID = itoa 0 := by
    apply unread serverIDFlag (by simp [flags, intFlags])
    rw [List.mem_cons, not_or]
    exact ⟨by decide, fun member => broken.own.2.1 (known _ member)⟩
  have bbns : itoa args.backboneNsNum = itoa 1 := by
    apply unread backboneNsNumFlag (by simp [flags, intFlags])
    rw [List.mem_cons, not_or]
    exact ⟨by decide, fun member => broken.own.2.2 (known _ member)⟩
  have operationRead : args.operation = operation :=
    reads.holds.given operationFlag (by simp [flags, stringFlags]) operation
      (by simp [operationFlag, stringVar])
  exact ⟨operationRead, Text.itoa_injective server, Text.itoa_injective bbns, unread⟩

theorem command_cut {before after : List (List Char × List Char)} {name first rest : List Char}
    (broken : Broken varOpts before name first rest after)
    (clean : ∀ arg ∈ topoArgs, Clean arg.toList) {serverId : Nat} (few : serverId < intLimit)
    {bbnsNum : Int} (low : -intLimit ≤ bbnsNum) (high : bbnsNum < intLimit)
    {operation : List Char} (run : operation = "setup".toList ∨ operation = "clean".toList) :
    (['t'] ∈ before.map Prod.fst → ∃ args,
      agentArgs (getOneVnManageCmd agentBinPath operation
        (serverOpts varOpts topoArgs serverId bbnsNum)) = some (.ok args) ∧
      CutShort operation (before.map Prod.fst ++ [name]) args) ∧
    (['t'] ∉ before.map Prod.fst →
      agentArgs (getOneVnManageCmd agentBinPath operation
        (serverOpts varOpts topoArgs serverId bbnsNum)) =
        some (.error (.message "Please notify TOPOFILE"))) := by
  obtain ⟨options, args, names, own, reads, read⟩ := broken.reads clean few low high run
  have cut := broken.cutShort names reads
  have run' : args.operation = "setup".toList ∨ args.operation = "clean".toList :=
    cut.operation.symm ▸ run
  rw [read]
  constructor
  · intro given
    have member : ['t'] ∈ options.map Prod.fst := names ▸ List.mem_append_left _ given
    obtain ⟨⟨key, path⟩, listed, rfl⟩ := List.mem_map.mp member
    have topofile : args.topofile = path :=
      reads.holds.given topofileFlag (by simp [flags, stringFlags]) path
        (List.mem_cons_of_mem _ listed)
    have some_path : args.topofile ≠ [] := by
      rw [topofile, own path listed]
      exact (subTopoPath_clean clean serverId).1
    exact ⟨args, by rw [reads.checked run' some_path]; rfl, cut⟩
  · intro absent
    have topofile : args.topofile = [] := by
      apply cut.default topofileFlag (by simp [flags, stringFlags])
      simpa [topofileFlag, stringVar, absent] using Ne.symm broken.notTopofile
    have algorithm : args.algorithm ≠ [] :=
      reads.filled algorithmFlag (by simp [flags, stringFlags]) (by decide)
    simp only [checkArgs, checkOperation, if_pos run', decide_eq_false algorithm, topofile,
      decide_true, notify_ok]
    rfl

/-- After a blank in a value every agent, whichever server it is on, acts as server 0 with one
namespace, or refuses to run for want of a topology file. -/
theorem agentCommands_cut {before after : List (List Char × List Char)}
    {name first rest : List Char} (broken : Broken varOpts before name first rest after)
    (clean : ∀ arg ∈ topoArgs, Clean arg.toList)
    (addresses : (vmConfigList.map Server.ipAddr).Nodup)
    (numbers : Numbers vmConfigList serverid2bbnsnum) :
    ∃ setup cleanUp,
      generateAgentCommands varOpts topoArgs vmConfigList serverid2bbnsnum =
        some (setup, cleanUp) ∧
      ∀ (id : Nat) (server : Server), vmConfigList[id]? = some server →
        ∀ pair ∈ [("setup".toList, setup), ("clean".toList, cleanUp)],
          ∃ sent, pair.2.get? server.ipAddr = some sent ∧
            (['t'] ∈ before.map Prod.fst → ∃ args, agentArgs sent.command = some (.ok args) ∧
              CutShort pair.1 (before.map Prod.fst ++ [name]) args) ∧
            (['t'] ∉ before.map Prod.fst →
              agentArgs sent.command = some (.error (.message "Please notify TOPOFILE"))) := by
  refine ⟨_, _, numbers.generated varOpts topoArgs, fun id server listed => ?_⟩
  obtain ⟨few, low, high⟩ := numbers.bounds listed
  rintro pair member
  simp only [List.mem_cons, List.not_mem_nil, or_false] at member
  rcases member with rfl | rfl
  · exact ⟨_, commandsOf_get? addresses _ varOpts topoArgs _ listed,
      command_cut broken clean few low high (.inl rfl)⟩
  · exact ⟨_, commandsOf_get? addresses _ varOpts topoArgs _ listed,
      command_cut broken clean few low high (.inr rfl)⟩

theorem brokenOpts_broken : Broken
    (Dict.ofEntries [(['t'], "chain".toList), (['m'], "/mnt/my disk".toList), (['p'], ['4'])])
    [(['t'], "chain".toList)] ['m'] "/mnt/my".toList "disk".toList [(['p'], ['4'])] where
  entries := by decide
  own := by decide
  notTopofile := by decide
  accepted := .inl (by decide)
  before_accepted := by simp
  plain := by decide
  operand := ⟨'d', by decide⟩

theorem agentCommands_cut_disk : ∃ setup cleanUp,
    generateAgentCommands
      (Dict.ofEntries [(['t'], "chain".toList), (['m'], "/mnt/my disk".toList), (['p'], ['4'])])
      ["chain", "5"] sampleVms sampleBbnsNums = some (setup, cleanUp) ∧
    ∃ sent args, setup.get? "10.0.1.2" = some sent ∧ agentArgs sent.command = some (.ok args) ∧
      args.serverID = 0 ∧ parallelFlag.string args = ['0'] := by
  obtain ⟨setup, cleanUp, generated, each⟩ := agentCommands_cut brokenOpts_broken
    (by decide : ∀ arg ∈ ["chain", "5"], Clean arg.toList) (by decide) sampleBbnsNums_fit
  obtain ⟨sent, listed, given, -⟩ :=
    each 1 ⟨"10.0.1.2", "/opt/splitnn/agent"⟩ rfl ("setup".toList, setup) (by simp)
  obtain ⟨args, read, cut⟩ := given (by decide)
  exact ⟨setup, cleanUp, generated, sent, args, listed, read, cut.serverID,
    cut.default parallelFlag (by simp [flags, intFlags]) (by decide)⟩

end Cut

end SplitNN.System
