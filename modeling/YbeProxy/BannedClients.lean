import YbeProxy.ModuleTexts

/-!
# Banned clients

The ban list inside the module: the commands of the console change it between the calls of the clients, and
`ClientConnect` reads it. A client is refused as banned exactly when a pattern in force matches its address, and a
pattern stays in force over any run until a command removes it.
-/

namespace YbeProxy.BannedClients
open YbeProxy.Strings YbeProxy.Infostrings YbeProxy.Addresses YbeProxy.Bans YbeProxy.BanPatterns YbeProxy.BanFile
open YbeProxy.Userinfo YbeProxy.Connection YbeProxy.VmMain YbeProxy.Runs YbeProxy.ModuleTexts
open YbeProxy.BanRuns (Good Path Change Moves commandChanges moves_command load)

/-! ## Refused as banned -/

def banned : CString := "Banned.".toList

theorem ne_banned_of_reason {reason : CString} (refuses : Reason reason) : reason ≠ banned := by
  rcases refuses with rfl | rfl | ⟨userinfo, invalid, _, rfl⟩
  · decide
  · decide
  · intro same
    have first := congrArg List.head? same
    simp [validationReason, comSprintf, banned] at first

/-- The proxy refuses a client as banned for nothing else than its address. -/
theorem refused_banned_iff (engine : Engine) (proxy : Proxy) (n : Slot) (firstTime : Bool)
    (present : infoValueForKey (engine.userinfo n).text keyIp ≠ []) :
    (VmMain.clientConnect engine proxy n firstTime false).1.result = .refused banned ↔
      isBanned proxy.bans.bans (infoValueForKey (engine.userinfo n).text keyIp) = true := by
  simp only [VmMain.clientConnect, Connection.clientConnect, Bool.false_eq_true, if_false, check, if_neg present]
  by_cases listed : isBanned proxy.bans.bans (infoValueForKey (engine.userinfo n).text keyIp) = true
  · simp only [listed, if_true]
    exact iff_of_true rfl trivial
  · simp only [listed, Bool.false_eq_true, if_false, iff_false]
    split
    · rename_i reason refused
      simp only [Result.refused.injEq]
      split at refused
      · rename_i many
        split at many
        · obtain rfl := Option.some.inj many
          obtain rfl := Option.some.inj refused
          decide
        · cases many
      · split at refused
        · rename_i sanitized
          obtain rfl := Option.some.inj refused
          exact ne_banned_of_reason (reason_sanitize sanitized)
        · cases refused
    · simp

/-! ## The list over a run -/

/-- A command that the proxy does not know changes no ban. -/
theorem bans_unhandled {server : BanFile.Server} {console : BanRuns.Console}
    (unhandled : (BanRuns.consoleCommand server console).1 = false) : (BanRuns.consoleCommand server console).2 = server := by
  simp only [BanRuns.consoleCommand] at unhandled ⊢
  split at unhandled
  · cases unhandled
  split at unhandled
  · cases unhandled
  split at unhandled
  · rename_i ban unban off
    rw [if_neg ban, if_neg unban, if_pos off]
  split at unhandled
  · cases unhandled
  split at unhandled
  · cases unhandled
  split at unhandled
  · cases unhandled
  · rename_i ban unban off addip removeip listip
    rw [if_neg ban, if_neg unban, if_neg off, if_neg addip, if_neg removeip, if_neg listip]

theorem bans_consoleCommand (engine : Engine) (proxy : Proxy) :
    (VmMain.consoleCommand engine proxy).2.2.bans = (BanRuns.consoleCommand proxy.bans (console engine proxy)).2 := by
  have command (cmd : CString) (mute : Bool) : (muteCommand engine proxy cmd mute).2.bans = proxy.bans := by
    rw [muteCommand]
    cases BanRuns.clientNumArgument (console engine proxy) <;> rfl
  simp only [VmMain.consoleCommand]
  split
  · rfl
  · rename_i unhandled
    rw [bans_unhandled (Bool.eq_false_iff.mpr unhandled)]
    split
    · rfl
    split
    · split <;> rfl
    split
    · exact command _ true
    split
    · exact command _ false
    · rfl

theorem bans_step (module : Module) (event : Event) :
    (∃ engine, event = .enter .consoleCommand engine ∧ (step module event).2.proxy.bans =
      (BanRuns.consoleCommand module.proxy.bans (console engine module.proxy)).2) ∨
    (step module event).2.proxy.bans = module.proxy.bans := by
  cases event with
  | enter call engine =>
    cases call with
    | consoleCommand => exact Or.inl ⟨engine, rfl, bans_consoleCommand engine module.proxy⟩
    | clientConnect k firstTime isBot =>
      refine Or.inr ?_
      change (VmMain.clientConnect engine module.proxy k firstTime isBot).2.bans = _
      simp only [VmMain.clientConnect]
      split <;> rfl
    | clientCommand k =>
      refine Or.inr ?_
      change (clientCommand engine module.proxy k).2.bans = _
      rcases Sessions.clientCommand_cases engine module.proxy k with ⟨_, data, same, _⟩ | ⟨_, forwarded⟩
      · rw [same]
        rfl
      · rw [forwarded]
    | clientUserinfoChanged k =>
      refine Or.inr ?_
      change (clientUserinfoChanged engine module.proxy k).2.bans = _
      simp only [clientUserinfoChanged]
      split <;> rfl
    | clientDisconnect k => exact Or.inr rfl
    | clientBegin k => exact Or.inr rfl
    | runFrame levelTime => exact Or.inr rfl
    | other => exact Or.inr rfl
  | syscall call engine =>
    refine Or.inr ?_
    cases call with
    | setConfigstring num string =>
      change (configstringSet module.proxy num string).bans = _
      rw [configstringSet]
      split <;> rfl
    | argv n bufferLength => rfl
    | sendServerCommand clientNum text => rfl
    | sendConsoleCommand exec text => rfl
    | other => rfl
  | leave refused engine =>
    refine Or.inr ?_
    rw [step.eq_def]
    cases module.calls with
    | nil => rfl
    | cons call calls =>
      cases call with
      | clientConnect k firstTime isBot =>
        change (if refused = true then module.proxy else clientConnected engine module.proxy k isBot).bans = _
        split <;> rfl
      | clientCommand k => rfl
      | runFrame levelTime => rfl
      | clientDisconnect k => rfl
      | clientBegin k => rfl
      | consoleCommand => rfl
      | clientUserinfoChanged k => rfl
      | other => rfl

/-- A change keeps every pattern that it does not remove. -/
theorem mem_of_path {before after : Finset Pattern} {changes : List Change} (path : Path before changes after)
    {pattern : Pattern} (member : pattern ∈ before) (kept : ∀ str, .remove str ∈ changes → ¬ Spelled str pattern) :
    pattern ∈ after := by
  induction changes generalizing before with
  | nil =>
    obtain rfl := path
    exact member
  | cons change rest hypothesis =>
    obtain ⟨next, allowed, later⟩ := path
    refine hypothesis later ?_ fun str removal => kept str (List.mem_cons_of_mem change removal)
    cases change with
    | add str legacy =>
      rcases allowed with ⟨added, _, rfl⟩ | ⟨rfl, _⟩
      · exact Finset.mem_insert_of_mem member
      · exact member
    | remove str =>
      rcases allowed with ⟨removed, _, spelled, rfl⟩ | ⟨rfl, _⟩
      · refine Finset.mem_erase.mpr ⟨?_, member⟩
        rintro rfl
        exact kept str List.mem_cons_self spelled
      · exact member

/-- A command of the console that removes a pattern by one of its spellings. -/
def Unbans (pattern : Pattern) (module : Module) : Event → Prop
  | .enter .consoleCommand engine =>
    ∃ str, .remove str ∈ commandChanges (console engine module.proxy) ∧ Spelled str pattern
  | _ => False

theorem good_step {module : Module} (good : Good module.proxy.bans) (event : Event) :
    Good (step module event).2.proxy.bans := by
  rcases bans_step module event with ⟨engine, _, changed⟩ | same
  · rw [changed]
    exact (moves_command good _).1
  · rw [same]
    exact good

theorem mem_step {module : Module} (good : Good module.proxy.bans) {event : Event} {pattern : Pattern}
    (member : pattern ∈ patterns module.proxy.bans.bans) (kept : ¬ Unbans pattern module event) :
    pattern ∈ patterns (step module event).2.proxy.bans.bans := by
  rcases bans_step module event with ⟨engine, rfl, changed⟩ | same
  · rw [changed]
    exact mem_of_path (moves_command good _).2 member fun str removal spelled => kept ⟨str, removal, spelled⟩
  · rwa [same]

/-- A pattern that is gone was removed by a command. -/
theorem unbanned {module : Module} (good : Good module.proxy.bans) (events : List Event) {pattern : Pattern}
    (member : pattern ∈ patterns module.proxy.bans.bans)
    (gone : pattern ∉ patterns (final step module events).proxy.bans.bans) :
    ∃ first event rest, events = first ++ event :: rest ∧ Unbans pattern (final step module first) event := by
  induction events generalizing module with
  | nil => exact absurd member gone
  | cons event events hypothesis =>
    by_cases removed : Unbans pattern module event
    · exact ⟨[], event, events, rfl, removed⟩
    · obtain ⟨first, later, rest, split, removed⟩ := hypothesis (good_step good event) (mem_step good member removed) gone
      exact ⟨event :: first, later, rest, by rw [split, List.cons_append], removed⟩

/-- With `g_filterBan` on, a player is refused as banned exactly when a pattern in force matches its address; a pattern
that was in force earlier in the run is in force still, unless a command of the console in between removed it. -/
theorem bans_hold (filterBan : CString) (on : filterBanOff filterBan = false) (server : BanFile.Server)
    (isOriginalEngine firstTime : Bool) (before between : List Event) (n : Slot) (engine : Engine) (ip : Ipv4)
    (address : AddressText ip (infoValueForKey (engine.userinfo n).text keyIp)) :
    let run := final step (.init isOriginalEngine (beforeGameInit filterBan server))
    let inForce events := patterns (run events).proxy.bans.bans
    ((step (run (before ++ between)) (.enter (.clientConnect n firstTime false) engine)).1.result = .refused banned ↔
        ∃ pattern ∈ inForce (before ++ between), pattern.Matches ip) ∧
      ∀ pattern ∈ inForce before, pattern ∈ inForce (before ++ between) ∨
        ∃ first event rest, between = first ++ event :: rest ∧ Unbans pattern (run (before ++ first)) event := by
  intro run inForce
  have good (events : List Event) : Good (run events).proxy.bans :=
    final_keeps step (fun module => Good module.proxy.bans) (fun event _ _ holds => good_step holds event) _ (load on server).1
  have present : infoValueForKey (engine.userinfo n).text keyIp ≠ [] := by
    obtain ⟨a, b, c, d, port, _, _, _, _, text, _⟩ := address
    rw [text]
    simp
  constructor
  · exact (refused_banned_iff engine _ n firstTime present).trans (isBanned_iff (good _).active address)
  · intro pattern member
    by_cases kept : pattern ∈ inForce (before ++ between)
    · exact Or.inl kept
    · refine Or.inr ?_
      simp only [inForce, run, final_append] at kept ⊢
      exact unbanned (good before) between member kept

/-- The address that the engine gave the player. -/
theorem joining_address : AddressText bannedIp (infoValueForKey (ModuleRuns.joining.userinfo slotZero).text keyIp) := by
  refine ⟨"10".toList, "20".toList, "30".toList, "40".toList, ":29070".toList, ?_, ?_, ?_, ?_, by decide +kernel, ?_⟩
  all_goals first
    | exact ⟨by decide, by decide, by decide⟩
    | exact Or.inr ⟨"29070".toList, rfl⟩

def widePattern : Pattern := ⟨[some 10, some 20, none, none], rfl⟩

theorem widePattern_matches : widePattern.Matches bannedIp :=
  .cons (by simp [bannedIp]) (.cons (by simp [bannedIp]) (.cons (by simp) (.cons (by simp) .nil)))

theorem bans_hold_sample :
    (step (final step (.init true (beforeGameInit "1".toList Sessions.noBans))
        ([.enter .consoleCommand (ModuleRuns.typing "addip 10.20"), .enter (.clientBegin slotZero) Sessions.quiet] ++
          [.enter .consoleCommand (ModuleRuns.typing "addip 1.2.3.4")]))
      (.enter (.clientConnect slotZero true false) ModuleRuns.joining)).1.result = .refused banned :=
  (bans_hold "1".toList (by decide) Sessions.noBans true true _ _ slotZero ModuleRuns.joining bannedIp
    joining_address).1.mpr ⟨widePattern, by decide +kernel, widePattern_matches⟩

end YbeProxy.BannedClients
