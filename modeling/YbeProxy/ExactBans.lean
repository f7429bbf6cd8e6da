import YbeProxy.BanRuns

/-!
# Removing the exact ban

`RemoveIP` frees the first slot that holds either reading of its text, the one of today or the one of the retail game. When that
is the ban that the text spells out: for `removeip`, and for `unban` with the address of a player.
-/

namespace YbeProxy.ExactBans
open YbeProxy.Strings YbeProxy.Addresses YbeProxy.Bans YbeProxy.BanPatterns YbeProxy.BanFile YbeProxy.BanRuns

/-! ## What is freed -/

/-- `RemoveIP` asks for the pattern that the text spells, or for that with its zeros as wildcards. -/
theorem slots_removeIP {str : CString} {pattern : Pattern} (spelled : reading str false = some pattern) (bans : BanList) :
    slots (removeIP bans str) = SlotStore.remove (fun other => other = pattern ∨ other = pattern.retail) (slots bans) := by
  rw [(removeIP_eq bans str).1]
  congr 1
  funext other
  simp [Spelled, reading_true, spelled, eq_comm]

theorem removeIPFrom_bans (server : Server) (str : CString) :
    (removeIPFrom server str).bans = removeIP server.bans str := by
  rw [removeIPFrom]
  cases read : stringToFilter str false with
  | error line =>
    rw [removeIP, read]
    rfl
  | ok filter =>
    dsimp only
    split
    · rfl
    · rename_i absent
      refine ((removeIP_eq server.bans str).2.2 (List.findIdx?_eq_none_iff.mpr ?_)).symm
      intro held member
      obtain ⟨other, listed, rfl⟩ := List.mem_map.mp member
      cases holds : slot other with
      | none => rfl
      | some pattern =>
        refine decide_eq_false ?_
        intro spelled
        exact absent (List.any_eq_true.mpr ⟨other, listed, spells_of_spelled spelled holds⟩)

/-- The pattern goes from the first slot that has it, and every other slot is as it was. -/
def OnlyFrees (pattern : Pattern) (before after : BanList) : Prop :=
  slots after = SlotStore.remove (fun other => other = pattern) (slots before)

instance (pattern : Pattern) (before after : BanList) : Decidable (OnlyFrees pattern before after) :=
  inferInstanceAs (Decidable (_ = _))

/-- No slot in front of the first with the pattern has the one with wildcards for its zeros, or no slot at all. -/
def ExactFirst (pattern : Pattern) (bans : BanList) : Prop :=
  some pattern.retail ∉ (slots bans).takeWhile fun slot => slot ≠ some pattern

instance (pattern : Pattern) (bans : BanList) : Decidable (ExactFirst pattern bans) :=
  inferInstanceAs (Decidable (¬ _))

theorem onlyFrees_removeIP_iff {str : CString} {pattern : Pattern} (spelled : reading str false = some pattern)
    (bans : BanList) : OnlyFrees pattern bans (removeIP bans str) ↔ ExactFirst pattern bans := by
  rw [OnlyFrees, slots_removeIP spelled]
  exact SlotStore.remove_either_iff pattern pattern.retail (slots bans)

theorem OnlyFrees.unchanged {pattern : Pattern} {before after : BanList} (frees : OnlyFrees pattern before after)
    (absent : some pattern ∉ slots before) : slots after = slots before :=
  frees.trans (SlotStore.remove_of_absent absent)

/-- The set loses the pattern, and no other, where no pattern is twice in the list. -/
theorem OnlyFrees.patterns {pattern : Pattern} {before after : BanList} (frees : OnlyFrees pattern before after)
    (sound : Sound before) : patterns after = (patterns before).erase pattern := by
  ext other
  rw [BanPatterns.patterns, frees, SlotStore.reduceOption_remove, Finset.mem_erase, BanPatterns.patterns, List.mem_toFinset,
    List.mem_toFinset]
  have erased := List.erase_eq_eraseP' pattern (slots before).reduceOption
  have test : (fun other => decide (other = pattern)) = fun other => other == pattern := by
    funext other
    rfl
  rw [test, ← erased]
  exact sound.apart.mem_erase_iff

/-! ## The two commands -/

/-- The ban of exactly one address. -/
def exactBan (ip : Ipv4) : Pattern := ⟨(octetsOf ip).map some, rfl⟩

theorem reading_dottedQuad (ip : Ipv4) : reading (dottedQuad ip) false = some (exactBan ip) := by
  have read := readOctets_dotted ((octetsOf ip).map .exact) (List.cons_ne_nil _ _)
  have text : dotted ((octetsOf ip).map .exact) = dottedQuad ip := rfl
  rw [text] at read
  rcases stringToFilter_cases (dottedQuad ip) false with ⟨unread, _, _⟩ | ⟨octets, four, again, _, spelled⟩
  · rw [show ((octetsOf ip).map Octet.exact).length = 4 from rfl, unread] at read
    cases read
  · rw [show ((octetsOf ip).map Octet.exact).length = 4 from rfl, again, Option.some.injEq] at read
    subst read
    rw [spelled]
    rfl

/-- A word is the name of one command at most. -/
theorem other_command {cmd name other : CString} (command : qStricmp cmd name = 0) (shortName : name.length < 99999)
    (shortOther : other.length < 99999) (apart : ¬ EqNoCase name other) : ¬ qStricmp cmd other = 0 :=
  fun same => apart (eqNoCase_of_qStricmp shortName shortOther command same)

theorem unban_bans {server : Server} {console : Console} {clientNum : Nat}
    (command : qStricmp (console.arg 0) "unban".toList = 0) (active : server.bans.active = true)
    (found : clientNumArgument console = some clientNum) (present : (console.clientData clientNum).address ≠ []) :
    (consoleCommand server console).2.bans = removeIP server.bans (console.clientData clientNum).address := by
  have notBan : ¬ qStricmp (console.arg 0) "ban".toList = 0 :=
    other_command command (by decide) (by decide) (by decide)
  rw [consoleCommand, if_neg notBan, if_pos command, banCommand, active, found]
  simp only [if_neg present, removeIPFrom_bans, Bool.not_true, Bool.not_false, Bool.false_eq_true, if_false, if_true]

theorem removeip_bans {server : Server} {console : Console} (command : qStricmp (console.arg 0) "removeip".toList = 0)
    (active : server.bans.active = true) (argument : 2 ≤ console.argv.length) :
    (consoleCommand server console).2.bans = removeIP server.bans (console.arg 1) := by
  have notBan : ¬ qStricmp (console.arg 0) "ban".toList = 0 :=
    other_command command (by decide) (by decide) (by decide)
  have notUnban : ¬ qStricmp (console.arg 0) "unban".toList = 0 :=
    other_command command (by decide) (by decide) (by decide)
  have notAddip : ¬ qStricmp (console.arg 0) "addip".toList = 0 :=
    other_command command (by decide) (by decide) (by decide)
  rw [consoleCommand, if_neg notBan, if_neg notUnban, active, Bool.not_true, if_neg Bool.false_ne_true, if_neg notAddip,
    if_pos command, removeipCommand, if_neg (Nat.not_lt.mpr argument), removeIPFrom_bans]

/-- `unban` of a player frees the ban of exactly their address, and nothing else, if and only if no slot in front of it has the
address with wildcards for its zeros. -/
theorem unban_exact_iff (server : Server) (console : Console) {clientNum : Nat} {ip : Ipv4}
    (command : qStricmp (console.arg 0) "unban".toList = 0) (active : server.bans.active = true)
    (found : clientNumArgument console = some clientNum)
    (address : (console.clientData clientNum).address = dottedQuad ip) :
    OnlyFrees (exactBan ip) server.bans (consoleCommand server console).2.bans ↔ ExactFirst (exactBan ip) server.bans := by
  have present : (console.clientData clientNum).address ≠ [] := by
    rw [address]
    exact dottedQuad_ne_nil ip
  rw [unban_bans command active found present, address]
  exact onlyFrees_removeIP_iff (reading_dottedQuad ip) server.bans

def host : Ipv4 := ⟨10, 20, 30, 0⟩
def hostBan : IpFilter := ⟨true, (octetsOf host).map .exact, rfl⟩
def rangeBan : IpFilter := ⟨true, [.exact 10, .exact 20, .exact 30, .wild], rfl⟩

def listing (filters : List IpFilter) : Server := ⟨⟨true, filters⟩, none, [], []⟩
def unbanHost : Console := ⟨["unban".toList, "0".toList], 8, fun _ => ⟨true, "Bob".toList, dottedQuad host⟩⟩
def removeipHost : Console := ⟨["removeip".toList, "10.20.30.0".toList], 8, fun _ => ⟨false, [], []⟩⟩

theorem unban_exact_sample :
    OnlyFrees (exactBan host) (listing [hostBan, rangeBan]).bans
      (consoleCommand (listing [hostBan, rangeBan]) unbanHost).2.bans :=
  (unban_exact_iff (listing [hostBan, rangeBan]) unbanHost (by decide) rfl (by decide : _ = some 0) rfl).mpr (by decide)

/-- The ban of `10.20.30.*` goes with the unban of a player at `10.20.30.0`. -/
theorem unban_removes_range :
    clientNumArgument unbanHost = some 0 ∧ (unbanHost.clientData 0).address = dottedQuad host ∧
      slots (consoleCommand (listing [rangeBan]) unbanHost).2.bans = [none] ∧
      ¬ OnlyFrees (exactBan host) (listing [rangeBan]).bans (consoleCommand (listing [rangeBan]) unbanHost).2.bans := by
  refine ⟨?_, rfl, ?_, ?_⟩
  · decide
  · decide
  · decide

/-- The ban that a text spells goes where it is in the list, and else the one with wildcards for its zeros, if that is. -/
def PrefersExact (pattern : Pattern) (before after : BanList) : Prop :=
  if some pattern ∈ slots before then OnlyFrees pattern before after
  else OnlyFrees pattern.retail before after

instance (pattern : Pattern) (before after : BanList) : Decidable (PrefersExact pattern before after) :=
  inferInstanceAs (Decidable (if some pattern ∈ slots before then OnlyFrees pattern before after
    else OnlyFrees pattern.retail before after))

/-- `removeip` prefers the exact ban if and only if it does not come behind the one with wildcards. -/
theorem removeip_prefers_exact_iff (server : Server) (console : Console) {pattern : Pattern}
    (command : qStricmp (console.arg 0) "removeip".toList = 0) (active : server.bans.active = true)
    (argument : 2 ≤ console.argv.length) (spelled : reading (console.arg 1) false = some pattern) :
    PrefersExact pattern server.bans (consoleCommand server console).2.bans ↔
      (some pattern ∈ slots server.bans → ExactFirst pattern server.bans) := by
  rw [removeip_bans command active argument, PrefersExact]
  by_cases listed : some pattern ∈ slots server.bans
  · rw [if_pos listed, onlyFrees_removeIP_iff spelled]
    exact ⟨fun first _ => first, fun first => first listed⟩
  · rw [if_neg listed]
    refine iff_of_true ?_ fun there => absurd there listed
    rw [OnlyFrees, slots_removeIP spelled]
    refine SlotStore.remove_congr ?_
    intro other member
    have apart : other ≠ pattern := by
      rintro rfl
      exact listed member
    simp [apart]

theorem removeip_prefers_exact_sample :
    PrefersExact (exactBan host) (listing [hostBan, rangeBan]).bans
      (consoleCommand (listing [hostBan, rangeBan]) removeipHost).2.bans :=
  (removeip_prefers_exact_iff (listing [hostBan, rangeBan]) removeipHost (by decide) rfl (by decide) (by decide)).mpr
    (by decide)

/-- The range was banned before the host: its ban goes, and the exact one stays. -/
theorem removeip_removes_range :
    reading (removeipHost.arg 1) false = some (exactBan host) ∧
      slots (consoleCommand (listing [rangeBan, hostBan]) removeipHost).2.bans = [none, some (exactBan host)] ∧
      ¬ PrefersExact (exactBan host) (listing [rangeBan, hostBan]).bans
        (consoleCommand (listing [rangeBan, hostBan]) removeipHost).2.bans := by
  refine ⟨?_, ?_, ?_⟩
  · decide
  · decide
  · decide

end YbeProxy.ExactBans
