import YbeProxy.ClientCommands
import YbeProxy.PrintToClient

/-!
# The chat of spectators

`Features/Chat.cpp`: below the team gametypes the game turns `say_team` into `say`. While it runs the `say_team` of a
spectator there, its chat goes to the spectators only, in the form of a team chat.
-/

namespace YbeProxy.SpectatorChat
open YbeProxy.Strings YbeProxy.Infostrings YbeProxy.Userinfo YbeProxy.ClientCommands
open YbeProxy.PrintToClient (strchr strchr_cases)

/-- `EC`. -/
def ec : Char := '\x19'

def teamSpectator : Int := 3
def gtTeam : Int := 6

/-- `ClientTeam`: the team in the configstring of the client. -/
def clientTeam (players : Nat → CString) (clientNum : Nat) : Int :=
  atoi (infoValueForKey (playerInfo players clientNum) "t".toList)

/-- The test of `ClientCommand`, which sets `spectatorChat`. -/
def spectatorSays (svGametype : Int) (players : Nat → CString) (clientNum : Nat) (cmd : CString) : Bool :=
  named cmd "say_team" && svGametype < gtTeam && clientTeam players clientNum = teamSpectator

/-- `"^7" EC ": ^2"`, between the name and the message of the game's `say`. -/
def sayMark : CString := '^' :: '7' :: ec :: ": ^2".toList

/-- The text that takes the place of the game's, before it is cut to its buffer. -/
def teamText (name message : CString) : CString :=
  "tchat \"".toList ++ ec :: '(' :: name ++ "^7".toList ++ ec :: ')' :: ec :: ": ^5".toList ++ message

/-- `TeamChat`: the text to send, or none where the client is not to hear it. -/
def teamChat (spectatorChat : Bool) (players : Nat → CString) (clientNum : Int) (text : CString) : Option CString :=
  if !spectatorChat || clientNum < 0 || text.take 6 ≠ "chat \"".toList then some text
  else if clientTeam players clientNum.toNat ≠ teamSpectator then none
  else
    let name := text.drop 6
    match strchr name ec with
    | none => some text
    | some separator =>
      if separator < 2 || (name.drop (separator - 2)).take 7 ≠ sayMark then some text
      else some (comSprintf maxStringChars (teamText (name.take (separator - 2)) (name.drop (separator + 5))))

/-- The text of the game's `say`, from the message on with what ends it. -/
def sayText (name message : CString) : CString := "chat \"".toList ++ name ++ sayMark ++ message

theorem strchr_of_split {body rest : CString} {c : Char} (first : c ∉ body) :
    strchr (body ++ c :: rest) c = some body.length := by
  induction body with
  | nil => exact if_pos rfl
  | cons a body hypothesis =>
    rw [List.mem_cons, not_or] at first
    rw [List.cons_append, strchr, if_neg (Ne.symm first.1), hypothesis first.2]
    rfl

theorem sayText_eq (name message : CString) :
    sayText name message = "chat \"".toList ++ (name ++ (sayMark ++ message)) := by
  unfold sayText
  rw [List.append_assoc, List.append_assoc]

/-- A text of the game's form, cut where `TeamChat` cuts it. -/
theorem drop_sayText (name message : CString) : (sayText name message).drop 6 = name ++ (sayMark ++ message) := by
  rw [sayText_eq]
  exact List.drop_left' rfl

/-- A chat in the game's form reaches a spectator as the team chat of the same name and message. -/
theorem teamChat_sayText {players : Nat → CString} {clientNum : Int} {name message : CString} (client : 0 ≤ clientNum)
    (spectator : clientTeam players clientNum.toNat = teamSpectator) (plain : ec ∉ name) :
    teamChat true players clientNum (sayText name message) =
      some (comSprintf maxStringChars (teamText name message)) := by
  have start : (sayText name message).take 6 = "chat \"".toList := by
    rw [sayText_eq]
    exact List.take_left' rfl
  have mark : ec ∉ name ++ ['^', '7'] := by
    rw [List.mem_append, not_or]
    exact ⟨plain, by decide⟩
  have found : strchr (name ++ (sayMark ++ message)) ec = some (name.length + 2) := by
    rw [show name ++ (sayMark ++ message) = (name ++ ['^', '7']) ++ ec :: (": ^2".toList ++ message) by
      rw [List.append_assoc]; rfl]
    rw [strchr_of_split mark, List.length_append]
    rfl
  have middle : ((name ++ (sayMark ++ message)).drop name.length).take 7 = sayMark := by
    rw [List.drop_left]
    exact List.take_left' rfl
  have behind : (name ++ (sayMark ++ message)).drop (name.length + 7) = message := by
    rw [← List.drop_drop, List.drop_left]
    exact List.drop_left' rfl
  have negative : ¬ clientNum < 0 := by omega
  simp only [teamChat, start, drop_sayText, found, spectator, Nat.add_sub_cancel, middle, Nat.add_assoc, Nat.reduceAdd,
    behind, List.take_left, negative, ne_eq, not_true_eq_false, decide_false, Bool.not_true, Bool.or_self,
    Bool.false_eq_true, if_false, Nat.not_lt.mpr (Nat.le_add_left 2 name.length)]

/-- The test on the mark finds the game's form. -/
theorem sayText_of_mark {text body rest : CString} (chat : text.take 6 = "chat \"".toList)
    (split : text.drop 6 = body ++ ec :: rest) (long : 2 ≤ body.length)
    (mark : ((text.drop 6).drop (body.length - 2)).take 7 = sayMark) :
    text = sayText (body.take (body.length - 2)) ((text.drop 6).drop (body.length + 5)) := by
  have front : (text.drop 6).take (body.length - 2) = body.take (body.length - 2) := by
    rw [split, List.take_append_of_le_length (Nat.sub_le _ _)]
  have behind : ((text.drop 6).drop (body.length - 2)).drop 7 = (text.drop 6).drop (body.length + 5) := by
    rw [List.drop_drop]
    congr 1
    omega
  rw [sayText_eq, ← chat, ← front, ← mark, ← behind, List.take_append_drop, List.take_append_drop, List.take_append_drop]

/-- What a flagged chat to a client may become: nothing, the team chat of the same name and message, or, in no form of
the game, itself. -/
theorem teamChat_cases (players : Nat → CString) {clientNum : Int} {text : CString} (client : 0 ≤ clientNum)
    (chat : text.take 6 = "chat \"".toList) :
    (clientTeam players clientNum.toNat ≠ teamSpectator ∧ teamChat true players clientNum text = none) ∨
    (clientTeam players clientNum.toNat = teamSpectator ∧
      ((∃ name message, ec ∉ name ∧ text = sayText name message ∧
        teamChat true players clientNum text = some (comSprintf maxStringChars (teamText name message))) ∨
      ((∀ name message, ec ∉ name → text ≠ sayText name message) ∧ teamChat true players clientNum text = some text))) := by
  have negative : ¬ clientNum < 0 := by omega
  by_cases spectator : clientTeam players clientNum.toNat = teamSpectator
  · refine Or.inr ⟨spectator, ?_⟩
    by_cases form : ∃ name message, ec ∉ name ∧ text = sayText name message
    · obtain ⟨name, message, plain, rfl⟩ := form
      exact Or.inl ⟨name, message, plain, rfl, teamChat_sayText client spectator plain⟩
    · refine Or.inr ⟨fun name message plain same => form ⟨name, message, plain, same⟩, ?_⟩
      unfold teamChat
      simp only [negative, chat, spectator, ne_eq, not_true_eq_false, decide_false, Bool.not_true, Bool.or_self,
        Bool.false_eq_true, if_false]
      rcases strchr_cases (text.drop 6) ec with ⟨body, rest, split, absent, found⟩ | ⟨_, none⟩
      · rw [found]
        by_cases long : 2 ≤ body.length
        · by_cases mark : ((text.drop 6).drop (body.length - 2)).take 7 = sayMark
          · have cut : ec ∉ body.take (body.length - 2) := fun member => absent (List.mem_of_mem_take member)
            exact absurd ⟨_, _, cut, sayText_of_mark chat split long mark⟩ form
          · simp only [mark, not_false_eq_true, decide_true, Bool.or_true, if_true]
        · simp only [Nat.lt_of_not_le long, decide_true, Bool.true_or, if_true]
      · rw [none]
  · refine Or.inl ⟨spectator, ?_⟩
    unfold teamChat
    simp only [negative, chat, spectator, ne_eq, not_true_eq_false, not_false_eq_true, decide_false, Bool.not_true,
      Bool.or_self, Bool.false_eq_true, if_false, if_true]

end YbeProxy.SpectatorChat
