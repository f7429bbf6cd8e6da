import YbeProxy.BanFile
import YbeProxy.Runs

/-!
# Runs of the ban list

`ConsoleCommand` of `Features/Bans.cpp`, and the list over any number of commands, reloads of the module and imports of
`g_banIPs`: it is a set of patterns, and the file keeps the set over a reload.
-/

namespace YbeProxy.BanRuns
open YbeProxy.Strings YbeProxy.Addresses YbeProxy.Bans YbeProxy.BanPatterns YbeProxy.BanFile YbeProxy.Runs

/-! ## Console commands -/

def maxClients : Nat := 32
def maxTokenChars : Nat := 1024

/-- What `ClientNumArgument` and the ban commands read of `ClientData`. -/
structure ClientData where
  isConnected : Bool
  cleanName : CString
  /-- Empty for bots. -/
  address : CString

/-- A command of the server console: its words and what the server knows of its clients. -/
structure Console where
  argv : List CString
  svMaxclients : Int
  clientData : Nat → ClientData

def Console.arg (console : Console) (n : Nat) : CString := qStrncpyz (console.argv.getD n []) maxTokenChars

/-- `ClientNumArgument`: the number of a connected client, digits only. -/
def clientNumArgument (console : Console) : Option Nat :=
  let arg := console.arg 1
  let clientNum := if arg ≠ [] ∧ ∀ c ∈ arg, isDigit c = true then atoi arg else -1
  if clientNum < 0 ∨ clientNum ≥ maxClients ∨ clientNum ≥ console.svMaxclients ∨
      (console.clientData clientNum.toNat).isConnected = false then none
  else some clientNum.toNat

/-- Whether a slot holds a filter that the text spells. -/
def spells (str : CString) (other : IpFilter) : Bool :=
  (match stringToFilter str false with
    | .ok filter => sameFilter other filter
    | .error _ => false) ||
  match stringToFilter str true with
    | .ok legacyFilter => sameFilter other legacyFilter
    | .error _ => false

/-- `RemoveIP` with what it prints and the file. -/
def removeIPFrom (server : Server) (str : CString) : Server :=
  match stringToFilter str false with
  | .error line => server.print line
  | .ok _ =>
    if server.bans.ipFilters.any (spells str) then
      updateIPBans ({ server with bans := removeIP server.bans str }.print "Removed.\n".toList)
    else server.print ("Didn't find ".toList ++ str ++ ".\n".toList)

/-- The commands `ban` and `unban`. -/
def banCommand (server : Server) (console : Console) (ban : Bool) : Server :=
  let cmd := console.arg 0
  if !server.bans.active then server.print (cmd ++ " needs g_filterBan 1, use addip and removeip\n".toList)
  else match clientNumArgument console with
    | none =>
      server.print ("Usage: ".toList ++ cmd ++ " <client number>, of a player in the game (see status)\n".toList)
    | some clientNum =>
      let clientData := console.clientData clientNum
      if clientData.address = [] then server.print (clientData.cleanName ++ " ^7has no IP address\n".toList)
      else if !ban then removeIPFrom server clientData.address
      else
        let added := addIPTo server clientData.address false
        if added.1 then
          (updateIPBans added.2).print (clientData.cleanName ++ " ^7is banned (".toList ++ clientData.address ++
            "), they will be refused at the next map change or reconnection\n".toList)
        else added.2

def addipCommand (server : Server) (console : Console) : Server :=
  if console.argv.length < 2 then server.print "Usage: addip <ip-mask>\n".toList
  else
    let added := addIPTo server (console.arg 1) false
    if added.1 then updateIPBans added.2 else added.2

def removeipCommand (server : Server) (console : Console) : Server :=
  if console.argv.length < 2 then server.print "Usage: removeip <ip-mask>\n".toList
  else removeIPFrom server (console.arg 1)

def listipCommand (server : Server) : Server :=
  let lines := (used server.bans).map fun filter => banText [] filter ++ "\n".toList
  { server with printed := server.printed ++ lines ++ [decimal lines.length ++ " bans.\n".toList] }

/-- `ConsoleCommand`: false when the game has to handle the command. -/
def consoleCommand (server : Server) (console : Console) : Bool × Server :=
  let cmd := console.arg 0
  if qStricmp cmd "ban".toList = 0 then (true, banCommand server console true)
  else if qStricmp cmd "unban".toList = 0 then (true, banCommand server console false)
  else if !server.bans.active then (false, server)
  else if qStricmp cmd "addip".toList = 0 then (true, addipCommand server console)
  else if qStricmp cmd "removeip".toList = 0 then (true, removeipCommand server console)
  else if qStricmp cmd "listip".toList = 0 then (true, listipCommand server)
  else (false, server)

/-! ## Runs -/

inductive Event
  | command (console : Console)
  /-- The server sets `g_banIPs`. -/
  | setBanIPs (list : CString)
  /-- A new module is loaded, for the next map. -/
  | reload

def step (filterBan : CString) (server : Server) : Event → Bool × Server
  | .command console => consoleCommand server console
  | .setBanIPs list => (true, { server with gBanIPs := list })
  | .reload => (true, beforeGameInit filterBan server)

/-! ## What a run may do to the set -/

/-- A change asked of the set, by its text. -/
inductive Change
  | add (str : CString) (legacy : Bool)
  | remove (str : CString)

/-- An addition adds its reading, or has none, or finds the set full without it; a removal takes out one pattern that
its text spells, or there is none. -/
def Change.Allowed (before after : Finset Pattern) : Change → Prop
  | .add str legacy => (∃ pattern, reading str legacy = some pattern ∧ after = insert pattern before) ∨
      (after = before ∧ ∀ pattern, reading str legacy = some pattern → pattern ∉ before ∧ before.card = maxIpFilters)
  | .remove str => (∃ pattern ∈ before, Spelled str pattern ∧ after = before.erase pattern) ∨
      (after = before ∧ ∀ pattern ∈ before, ¬ Spelled str pattern)

def Path : Finset Pattern → List Change → Finset Pattern → Prop
  | before, [], after => after = before
  | before, change :: changes, after => ∃ between, change.Allowed before between ∧ Path between changes after

/-- A change with the address of the player that a command names, unless there is none. -/
def clientChanges (console : Console) (change : CString → Change) : List Change :=
  match clientNumArgument console with
  | none => []
  | some clientNum =>
    if (console.clientData clientNum).address = [] then [] else [change (console.clientData clientNum).address]

/-- The changes that a command asks for. -/
def commandChanges (console : Console) : List Change :=
  let cmd := console.arg 0
  if qStricmp cmd "ban".toList = 0 then clientChanges console (.add · false)
  else if qStricmp cmd "unban".toList = 0 then clientChanges console .remove
  else if console.argv.length < 2 then []
  else if qStricmp cmd "addip".toList = 0 then [.add (console.arg 1) false]
  else if qStricmp cmd "removeip".toList = 0 then [.remove (console.arg 1)]
  else []

/-- The changes that an event asks for: a reload keeps the set, and imports. -/
def changes (server : Server) : Event → List Change
  | .command console => commandChanges console
  | .setBanIPs _ => []
  | .reload => (importWords server.gBanIPs).map (.add · true)

def runChanges (filterBan : CString) : Server → List Event → List Change
  | _, [] => []
  | server, event :: events => changes server event ++ runChanges filterBan (step filterBan server event).2 events

theorem Path.append {first second : List Change} {before between after : Finset Pattern} (left : Path before first between)
    (right : Path between second after) : Path before (first ++ second) after := by
  induction first generalizing before with
  | nil =>
    obtain rfl := left
    exact right
  | cons change rest hypothesis =>
    obtain ⟨next, allowed, later⟩ := left
    exact ⟨next, allowed, hypothesis later⟩

theorem path_single {change : Change} {before after : Finset Pattern} (allowed : change.Allowed before after) :
    Path before [change] after := ⟨after, allowed, rfl⟩

theorem allowed_add {bans : BanList} (sound : Sound bans) (str : CString) (legacy : Bool) :
    (Change.add str legacy).Allowed (patterns bans) (patterns (addIP bans str legacy).2) := by
  obtain ⟨_, ⟨_, pattern, spelled, added⟩ | ⟨failed, full⟩⟩ := addIP_cases sound str legacy
  · exact Or.inl ⟨pattern, spelled, added⟩
  · rw [failed]
    exact Or.inr ⟨rfl, full⟩

theorem allowed_remove {bans : BanList} (sound : Sound bans) (str : CString) :
    (Change.remove str).Allowed (patterns bans) (patterns (removeIP bans str)) := by
  obtain ⟨_, ⟨i, pattern, holds, spelled, _, _, removed⟩ | ⟨same, none⟩⟩ := removeIP_cases sound str
  · refine Or.inl ⟨pattern, ?_, spelled, removed⟩
    rw [patterns, List.mem_toFinset, List.reduceOption_mem_iff]
    exact List.mem_of_getElem? holds
  · rw [same]
    exact Or.inr ⟨rfl, none⟩

theorem path_addWords (legacy : Bool) (list : List CString) {bans : BanList} (sound : Sound bans) :
    Path (patterns bans) (list.map (.add · legacy)) (patterns (addWords legacy bans list)) := by
  induction list generalizing bans with
  | nil => rfl
  | cons word list hypothesis => exact ⟨_, allowed_add sound word legacy, hypothesis (addIP_cases sound word legacy).1⟩

/-! ## The invariant of a run -/

/-- The list is sound, and the file spells the set of the list. -/
structure Good (server : Server) : Prop where
  sound : Sound server.bans
  active : server.bans.active = true
  kept : (slots (addWords false ⟨false, []⟩ (fileWords server.file))).reduceOption = (slots server.bans).reduceOption

theorem good_written {server : Server} (sound : Sound server.bans) (active : server.bans.active = true)
    (written : server.file = some (bansText server.bans)) : Good server := by
  refine ⟨sound, active, ?_⟩
  rw [written, fileWords_bansText sound, slots, addWords_bansText sound, used, map_slot_used, List.reduceOption,
    List.filterMap_map, Function.id_comp, List.filterMap_some]
  rfl

theorem Good.congr {server other : Server} (good : Good server) (bans : other.bans = server.bans)
    (file : other.file = server.file) : Good other := by
  obtain ⟨sound, active, kept⟩ := good
  exact ⟨bans ▸ sound, bans ▸ active, by rw [bans, file, kept]⟩

/-- From a good state to a good state, by these changes of the set. -/
def Moves (server : Server) (changes : List Change) (after : Server) : Prop :=
  Good after ∧ Path (patterns server.bans) changes (patterns after.bans)

theorem Good.stays {server after : Server} (good : Good server) (bans : after.bans = server.bans)
    (file : after.file = server.file) : Moves server [] after := by
  refine ⟨good.congr bans file, ?_⟩
  rw [bans]
  rfl

theorem Good.added {server after : Server} (good : Good server) {str : CString}
    (bans : after.bans = (addIP server.bans str false).2)
    (file : (addIP server.bans str false).1 = true ∧ after.file = some (bansText after.bans) ∨
      (addIP server.bans str false).1 = false ∧ after.file = server.file) :
    Moves server [.add str false] after := by
  have sound := (addIP_cases good.sound str false).1
  constructor
  · rcases file with ⟨_, written⟩ | ⟨failed, same⟩
    · refine good_written (bans ▸ sound) ?_ written
      rw [bans]
      cases spelled : reading str false with
      | none => rw [addIP_of_unread spelled, good.active]
      | some pattern => rw [(addIP_of_read spelled server.bans).2.2, good.active]
    · exact good.congr (bans.trans (addIP_failed failed)) same
  · rw [bans]
    exact path_single (allowed_add good.sound str false)

theorem spells_of_spelled {str : CString} {pattern : Pattern} (spelled : Spelled str pattern) {other : IpFilter}
    (holds : slot other = some pattern) : spells str other = true := by
  have test (legacy : Bool) (read : reading str legacy = some pattern) :
      (match stringToFilter str legacy with
        | .ok filter => sameFilter other filter
        | .error _ => false) = true := by
    rw [reading] at read
    cases found : stringToFilter str legacy with
    | ok filter =>
      rw [found] at read
      exact (sameFilter_iff read other).mpr holds
    | error line =>
      rw [found] at read
      cases read
  rw [spells, Bool.or_eq_true]
  exact spelled.imp (test false) (test true)

theorem Good.removed {server : Server} (good : Good server) (str : CString) :
    Moves server [.remove str] (removeIPFrom server str) := by
  have untouched (line : CString) (none : ∀ pattern ∈ patterns server.bans, ¬ Spelled str pattern) :
      Moves server [.remove str] (server.print line) :=
    ⟨good.congr rfl rfl, path_single (Or.inr ⟨rfl, none⟩)⟩
  rw [removeIPFrom]
  cases read : stringToFilter str false with
  | error line =>
    refine untouched line ?_
    have unread : reading str false = none := by rw [reading, read]
    have legacy := reading_isSome str
    rw [unread, Option.isSome_none, Option.isSome_eq_false_iff, Option.isNone_iff_eq_none] at legacy
    intro pattern _ spelled
    rw [Spelled, unread, legacy] at spelled
    rcases spelled with today | retail
    · cases today
    · cases retail
  | ok filter =>
    simp only
    split
    · refine ⟨good_written (removeIP_cases good.sound str).1 ?_ rfl, path_single (allowed_remove good.sound str)⟩
      exact (removeIP_eq server.bans str).2.1.trans good.active
    · rename_i absent
      refine untouched _ ?_
      intro pattern member spelled
      obtain ⟨other, listed, holds⟩ := mem_patterns.mp member
      exact absent (List.any_eq_true.mpr ⟨other, listed, spells_of_spelled spelled holds⟩)

/-- `AddIP`, and the file where it succeeds. -/
theorem Good.addIPTo {server written : Server} (good : Good server) (str : CString)
    (bans : written.bans = (addIPTo server str false).2.bans)
    (file : written.file = (updateIPBans (addIPTo server str false).2).file) :
    Moves server [.add str false] (if (addIPTo server str false).1 then written else (addIPTo server str false).2) := by
  split
  · rename_i success
    refine good.added bans (Or.inl ⟨success, ?_⟩)
    rw [file, bans]
    rfl
  · rename_i failed
    exact good.added rfl (Or.inr ⟨Bool.eq_false_iff.mpr failed, rfl⟩)

theorem moves_banCommand {server : Server} (good : Good server) (console : Console) (ban : Bool) :
    Moves server (clientChanges console (if ban then (.add · false) else .remove)) (banCommand server console ban) := by
  rw [banCommand, clientChanges, good.active]
  simp only [Bool.not_true, Bool.false_eq_true, if_false]
  cases clientNumArgument console with
  | none => exact good.stays rfl rfl
  | some clientNum =>
    simp only
    split
    · exact good.stays rfl rfl
    · cases ban with
      | true => exact good.addIPTo _ rfl rfl
      | false => exact good.removed _

theorem moves_addipCommand {server : Server} (good : Good server) (console : Console) :
    Moves server (if console.argv.length < 2 then [] else [.add (console.arg 1) false]) (addipCommand server console) := by
  rw [addipCommand]
  split
  · exact good.stays rfl rfl
  · exact good.addIPTo _ rfl rfl

theorem moves_removeipCommand {server : Server} (good : Good server) (console : Console) :
    Moves server (if console.argv.length < 2 then [] else [.remove (console.arg 1)]) (removeipCommand server console) := by
  rw [removeipCommand]
  split
  · exact good.stays rfl rfl
  · exact good.removed _

theorem moves_command {server : Server} (good : Good server) (console : Console) :
    Moves server (commandChanges console) (consoleCommand server console).2 := by
  have ban := moves_banCommand good console true
  have unban := moves_banCommand good console false
  have addip := moves_addipCommand good console
  have removeip := moves_removeipCommand good console
  have stays : Moves server [] server := good.stays rfl rfl
  have listip : Moves server [] (listipCommand server) := good.stays rfl rfl
  rw [commandChanges, consoleCommand, good.active]
  simp only [Bool.not_true, Bool.false_eq_true, if_false]
  by_cases isBan : qStricmp (console.arg 0) "ban".toList = 0
  · rw [if_pos isBan, if_pos isBan]
    exact ban
  rw [if_neg isBan, if_neg isBan]
  by_cases isUnban : qStricmp (console.arg 0) "unban".toList = 0
  · rw [if_pos isUnban, if_pos isUnban]
    exact unban
  rw [if_neg isUnban, if_neg isUnban]
  by_cases isAddip : qStricmp (console.arg 0) "addip".toList = 0
  · rw [if_pos isAddip, if_pos isAddip]
    exact addip
  rw [if_neg isAddip, if_neg isAddip]
  by_cases isRemoveip : qStricmp (console.arg 0) "removeip".toList = 0
  · rw [if_pos isRemoveip, if_pos isRemoveip]
    exact removeip
  rw [if_neg isRemoveip, if_neg isRemoveip, ite_self]
  by_cases isListip : qStricmp (console.arg 0) "listip".toList = 0
  · rw [if_pos isListip]
    exact listip
  · rw [if_neg isListip]
    exact stays

/-- A new module finds the set in the file, and adds what it imports. -/
theorem load {filterBan : CString} (on : filterBanOff filterBan = false) (server : Server) :
    Good (beforeGameInit filterBan server) ∧
      Path (patterns (addWords false ⟨false, []⟩ (fileWords server.file))) ((importWords server.gBanIPs).map (.add · true))
        (patterns (beforeGameInit filterBan server).bans) := by
  obtain ⟨bans, file⟩ := beforeGameInit_eq on server
  have filed : Sound (addWords false ⟨false, []⟩ (fileWords server.file)) := sound_addWords false _ (sound_nil false)
  have imported := sound_addWords true (importWords server.gBanIPs) filed
  have sound : Sound (beforeGameInit filterBan server).bans := by
    rw [bans]
    exact imported
  have active : (beforeGameInit filterBan server).bans.active = true := by rw [bans]
  constructor
  · rcases file with ⟨empty, same⟩ | written
    · have none : importWords [] = [] := by decide
      refine ⟨sound, active, ?_⟩
      rw [same, bans, empty, none]
      rfl
    · exact good_written sound active written
  · rw [bans]
    exact path_addWords true _ filed

theorem moves_step {filterBan : CString} (on : filterBanOff filterBan = false) {server : Server} (good : Good server)
    (event : Event) : Moves server (changes server event) (step filterBan server event).2 := by
  cases event with
  | command console => exact moves_command good console
  | setBanIPs list => exact good.stays rfl rfl
  | reload =>
    obtain ⟨loaded, path⟩ := load on server
    refine ⟨loaded, ?_⟩
    rwa [patterns, good.kept] at path

theorem moves_run {filterBan : CString} (on : filterBanOff filterBan = false) {server : Server} (good : Good server)
    (events : List Event) : Moves server (runChanges filterBan server events) (final (step filterBan) server events) := by
  induction events generalizing server with
  | nil => exact good.stays rfl rfl
  | cons event events hypothesis =>
    obtain ⟨next, path⟩ := moves_step on good event
    obtain ⟨last, rest⟩ := hypothesis next
    exact ⟨last, path.append rest⟩

/-! ## The list at any time -/

/-- A ban list that is a set of patterns, with what each operation does to the set. -/
structure Represents (bans : BanList) : Prop where
  apart : bans.ipFilters.Pairwise fun a b => sameFilter a b = false
  bounded : (used bans).length ≤ maxIpFilters
  octets : ∀ filter ∈ bans.ipFilters, ∀ octet ∈ filter.octets, octet.mask = 0 ∧ octet.compare = 0 ∨ octet.mask = 255
  fails : ∀ str legacy, (addIP bans str legacy).1 = false → (addIP bans str legacy).2 = bans ∧
    ∀ pattern, reading str legacy = some pattern → pattern ∉ patterns bans ∧ (patterns bans).card = maxIpFilters
  adds : ∀ str legacy, (addIP bans str legacy).1 = true → ∃ pattern, reading str legacy = some pattern ∧
    patterns (addIP bans str legacy).2 = insert pattern (patterns bans)
  /-- The lowest slot with a reading of the text is freed, or there is none. -/
  removes : ∀ str,
    (∃ i pattern, (slots bans)[i]? = some (some pattern) ∧ Spelled str pattern ∧
      (∀ j other, j < i → (slots bans)[j]? = some (some other) → ¬ Spelled str other) ∧
      slots (removeIP bans str) = (slots bans).set i none ∧
      patterns (removeIP bans str) = (patterns bans).erase pattern) ∨
    (removeIP bans str = bans ∧ ∀ pattern ∈ patterns bans, ¬ Spelled str pattern)
  banned : ∀ ip text, AddressText ip text → (isBanned bans text = true ↔ ∃ pattern ∈ patterns bans, pattern.Matches ip)

theorem pairwise_of_sound {filters : List IpFilter} (apart : (filters.map slot).reduceOption.Nodup) :
    filters.Pairwise fun a b => sameFilter a b = false := by
  induction filters with
  | nil => exact List.Pairwise.nil
  | cons filter filters hypothesis =>
    rw [List.map_cons] at apart
    cases holds : slot filter with
    | none =>
      rw [holds, List.reduceOption_cons_of_none] at apart
      refine List.pairwise_cons.mpr ⟨?_, hypothesis apart⟩
      intro other _
      have free : filter.used = false := by rw [← slot_isSome, holds, Option.isSome_none]
      rw [sameFilter, free, Bool.false_and, Bool.false_and]
    | some pattern =>
      rw [holds, List.reduceOption_cons_of_some, List.nodup_cons] at apart
      refine List.pairwise_cons.mpr ⟨?_, hypothesis apart.2⟩
      intro other member
      cases held : slot other with
      | none =>
        have free : other.used = false := by rw [← slot_isSome, held, Option.isSome_none]
        rw [sameFilter, free, Bool.and_false, Bool.false_and]
      | some otherPattern =>
        rw [Bool.eq_false_iff]
        intro same
        have equal := (sameFilter_iff held filter).mp same
        rw [holds, ← held] at equal
        exact apart.1 (List.reduceOption_mem_iff.mpr (equal ▸ List.mem_map_of_mem member))

theorem Good.represents {server : Server} (good : Good server) : Represents server.bans := by
  obtain ⟨sound, active, _⟩ := good
  refine ⟨pairwise_of_sound sound.apart, ?_, ?_, ?_, ?_, ?_, ?_⟩
  · exact (List.length_filter_le ..).trans ((List.length_map slot).symm.trans_le sound.bounded)
  · intro filter _ octet _
    exact octet.sound.symm
  · intro str legacy failed
    refine ⟨addIP_failed failed, ?_⟩
    obtain ⟨_, ⟨success, _⟩ | ⟨_, full⟩⟩ := addIP_cases sound str legacy
    · rw [failed] at success
      cases success
    · exact full
  · intro str legacy success
    obtain ⟨_, ⟨_, added⟩ | ⟨failed, _⟩⟩ := addIP_cases sound str legacy
    · exact added
    · rw [failed] at success
      cases success
  · exact fun str => (removeIP_cases sound str).2
  · exact fun ip text => isBanned_iff active

/-- The first load adds what the file and `g_banIPs` spell. -/
def loadChanges (server : Server) : List Change :=
  (fileWords server.file).map (.add · false) ++ (importWords server.gBanIPs).map (.add · true)

/-- Over any run the list is a set of patterns, and the set moves only by the changes that the run asks for. -/
theorem bans_are_patterns {filterBan : CString} (on : filterBanOff filterBan = false) (server : Server)
    (events : List Event) :
    Represents (final (step filterBan) (beforeGameInit filterBan server) events).bans ∧
      Path ∅ (loadChanges server ++ runChanges filterBan (beforeGameInit filterBan server) events)
        (patterns (final (step filterBan) (beforeGameInit filterBan server) events).bans) := by
  obtain ⟨good, imported⟩ := load on server
  obtain ⟨last, rest⟩ := moves_run on good events
  have filed : Path ∅ ((fileWords server.file).map (.add · false)) _ :=
    path_addWords false (fileWords server.file) (sound_nil false)
  exact ⟨last.represents, (filed.append imported).append rest⟩

/-- A file, and a list as the retail game wrote it. -/
def sampleServer : Server := ⟨⟨false, []⟩, some "9.9.9.9\r\n".toList, "10.0.0.0 152.0".toList, []⟩

def addip (str : String) : Event := .command ⟨["addip".toList, str.toList], 8, fun _ => ⟨false, [], []⟩⟩
def removeip (str : String) : Event := .command ⟨["removeip".toList, str.toList], 8, fun _ => ⟨false, [], []⟩⟩

def sampleEvents : List Event := [addip "152.0", removeip "10.0.0.0", .reload, addip "1.2.3.4"]

theorem bans_are_patterns_sample :
    Represents (final (step "1".toList) (beforeGameInit "1".toList sampleServer) sampleEvents).bans ∧
      Path ∅ (loadChanges sampleServer ++ runChanges "1".toList (beforeGameInit "1".toList sampleServer) sampleEvents)
        (patterns (final (step "1".toList) (beforeGameInit "1".toList sampleServer) sampleEvents).bans) :=
  bans_are_patterns (by decide) sampleServer sampleEvents

/-- What `UpdateIPBans` writes is read back, filter by filter, at any time of a run; nothing of it is cut. -/
theorem bans_file_round_trip {filterBan : CString} (on : filterBanOff filterBan = false) (server last : Server)
    (events : List Event) (reached : last = final (step filterBan) (beforeGameInit filterBan server) events) :
    (beforeGameInit filterBan (updateIPBans { last with gBanIPs := [] })).bans.ipFilters = used last.bans ∧
      (bansText last.bans).length < bufferSize ∧ ∀ word ∈ words (bansText last.bans), word.take 63 = word := by
  obtain ⟨sound, _, _⟩ : Good last := reached ▸ (moves_run on (load on server).1 events).1
  have bounded : last.bans.ipFilters.length ≤ maxIpFilters := (List.length_map slot).symm.trans_le sound.bounded
  obtain ⟨fits, short⟩ := length_bansText bounded
  refine ⟨reload_updateIPBans on sound, fits, ?_⟩
  intro word member
  exact List.take_of_length_le ((short word member).trans (by decide))

theorem bans_file_round_trip_sample :
    (beforeGameInit "1".toList (updateIPBans
        { final (step "1".toList) (beforeGameInit "1".toList sampleServer) sampleEvents with gBanIPs := [] })).bans.ipFilters =
      used (final (step "1".toList) (beforeGameInit "1".toList sampleServer) sampleEvents).bans :=
  (bans_file_round_trip (by decide) sampleServer _ sampleEvents rfl).1

end YbeProxy.BanRuns
