import YbeProxy.ServerCommands
import Mathlib.Logic.Relation

/-!
# The steps of a command

What the commands of the `ucmds` table do, one act at a time: what every act keeps, a whole command keeps. The one
command with a limit of its own, `userinfo`, is told apart from the others by `executeClientCommand_cases`.
-/

namespace YbeProxy.CommandSteps
open YbeProxy.Strings
open YbeProxy.ServerCommands
open YbeProxy.Cmd (cmdArgv cmdTokenizeString2)

variable (env : Env) (tokens : List CString)

/-- The calls that neither reach the game nor change a client. -/
def isQuiet : Call → Bool
  | .fsFCloseFile _ => true
  | .zFree _ => true
  | .comPrintf _ => true
  | .comDPrintf _ => true
  | _ => false

/-- One thing that a command other than `userinfo` does. -/
inductive Act : Work → Work → Prop
  | quiet (work : Work) {call : Call} (quiet : isQuiet call = true) : Act work (work.log call)
  | drop (work : Work) (reason : CString) : Act work (work.dropClient env reason)
  | download (work : Work) (download : Int32) (downloadName : CString) (downloadBlocks : Nat → Bool)
      (downloadClientBlock downloadSendTime : Int32) :
    Act work { work with cl := { work.cl with
      download, downloadName, downloadBlocks, downloadClientBlock, downloadSendTime } }
  | pure (work : Work) (pureAuthentic nextSnapshotTime : Int32) (state : ClientMessage.ClientState) :
    Act work { work with cl := { work.cl with pureAuthentic, nextSnapshotTime, state } }
  | snapshot (work : Work) :
    Act work { work.log .svSendClientSnapshot with cl := env.svSendClientSnapshot work.cl }
  | beginDownload (work : Work) :
    Act work { work.log .originalSvBeginDownload with cl := env.originalSvBeginDownload tokens work.cl }
  | doneDownload (work : Work) :
    Act work { work.log .originalSvDoneDownload with cl := env.originalSvDoneDownload work.cl }

abbrev Acts : Work → Work → Prop := Relation.ReflTransGen (Act env tokens)

/-- What every act keeps, acts keep. -/
theorem Acts.keeps {env : Env} {tokens : List CString} {Keeps : Work → Prop}
    (keeps : ∀ work next, Act env tokens work next → Keeps work → Keeps next) {work next : Work}
    (acts : Acts env tokens work next) (initially : Keeps work) : Keeps next := by
  induction acts with
  | refl => exact initially
  | tail _ act hypothesis => exact keeps _ _ act hypothesis

/-! ## Downloads -/

theorem beginDownload_acts (work : Work) : Acts env tokens work (proxySvBeginDownloadF env tokens work) := by
  rw [proxySvBeginDownloadF]
  split
  · exact .refl
  · simp only
    split
    · exact .refl
    · exact .single (Act.beginDownload work)

theorem freeBlock_acts (work : Work) (i : Nat) : Acts env tokens work (freeBlock work i) := by
  rw [freeBlock]
  split
  · exact (Relation.ReflTransGen.single (Act.quiet work rfl)).tail (Act.download (work.log (.zFree i)) work.cl.download
      work.cl.downloadName _ work.cl.downloadClientBlock work.cl.downloadSendTime)
  · exact .refl

theorem freeBlocks_acts (blocks : List Nat) (work : Work) : Acts env tokens work (blocks.foldl freeBlock work) := by
  induction blocks generalizing work with
  | nil => exact .refl
  | cons i rest hypothesis => exact (freeBlock_acts env tokens work i).trans (hypothesis (freeBlock work i))

theorem closeDownload_acts (work : Work) : Acts env tokens work (proxySvCloseDownload work) := by
  rw [proxySvCloseDownload]
  have closed : Acts env tokens work (if work.cl.download ≠ 0 then work.log (.fsFCloseFile work.cl.download) else work) := by
    split
    · exact .single (Act.quiet work rfl)
    · exact .refl
  exact (closed.tail (Act.download _ 0 [] _ _ _)).trans (freeBlocks_acts env tokens _ _)

theorem nextDownload_acts (work : Work) : Acts env tokens work (proxySvNextDownloadF env tokens work) := by
  rw [proxySvNextDownloadF]
  split
  · exact .refl
  · simp only
    split
    · split
      · exact ((closeDownload_acts env tokens _).head (Act.quiet _ rfl)).head (Act.quiet work rfl)
      · exact (Relation.ReflTransGen.single (Act.quiet work rfl)).tail (Act.download (work.log _) work.cl.download
          work.cl.downloadName work.cl.downloadBlocks _ _)
    · exact .single (Act.drop work _)

theorem stopDownload_acts (work : Work) : Acts env tokens work (proxySvStopDownloadF work) := by
  rw [proxySvStopDownloadF]
  split
  · exact .refl
  · refine Relation.ReflTransGen.trans ?_ (closeDownload_acts env tokens _)
    split
    · exact .single (Act.quiet work rfl)
    · exact .refl

theorem doneDownload_acts (work : Work) : Acts env tokens work (proxySvDoneDownloadF env work) := by
  rw [proxySvDoneDownloadF]
  split
  · exact .refl
  · exact .single (Act.doneDownload work)

/-! ## The table -/

theorem verifyPaks_acts (work : Work) : Acts env tokens work (proxySvVerifyPaksF env tokens work) := by
  rw [proxySvVerifyPaksF]
  split
  · split
    · exact .single (Act.pure work 1 work.cl.nextSnapshotTime work.cl.state)
    · have active : Act env tokens work _ := Act.pure work 0 (-1) .csActive
      exact ((Relation.ReflTransGen.single active).tail (Act.snapshot _)).tail (Act.drop _ _)
  · exact .refl

/-- Every command of the table but `userinfo` is acts. -/
theorem ucmds_acts (work : Work) : ∀ u ∈ (ucmds env tokens).tail, Acts env tokens work (u.2 work) := by
  simp only [ucmds, List.tail_cons, List.forall_mem_cons, List.not_mem_nil, false_implies, implies_true, and_true]
  refine ⟨?_, ?_, ?_, ?_, ?_, ?_, ?_⟩
  · exact .single (Act.drop work _)
  · exact verifyPaks_acts env tokens work
  · exact .single (Act.pure work 0 work.cl.nextSnapshotTime work.cl.state)
  · exact beginDownload_acts env tokens work
  · exact nextDownload_acts env tokens work
  · exact stopDownload_acts env tokens work
  · exact doneDownload_acts env tokens work

/-- The first entry of a table by a name, if it is not the first of all. -/
theorem find_cons {α : Type} (first : CString) (does : α) (rest : List (CString × α)) (name : CString) :
    ((first, does) :: rest).find? (fun u => u.1 = name) =
      if name = first then some (first, does) else rest.find? fun u => u.1 = name := by
  by_cases named : name = first
  · rw [if_pos named]
    exact List.find?_cons_of_pos (decide_eq_true named.symm)
  · rw [if_neg named]
    refine List.find?_cons_of_neg ?_
    exact fun same => named (of_decide_eq_true same).symm

/-- A command is `userinfo`, or one of the others, or it goes to the game where its text is heard. -/
theorem executeClientCommand_cases (cl : ClientT) (s : CString) (clientOk : Bool) :
    let tokens := cmdTokenizeString2 s false
    (cmdArgv tokens 0 = "userinfo".toList ∧
        proxySvExecuteClientCommand env cl s clientOk = proxySvUpdateUserinfoF env tokens ⟨cl, []⟩) ∨
      cmdArgv tokens 0 ≠ "userinfo".toList ∧
        (Acts env tokens ⟨cl, []⟩ (proxySvExecuteClientCommand env cl s clientOk) ∨
          clientOk = true ∧
            proxySvExecuteClientCommand env cl s clientOk = ⟨env.gameClientCommand tokens cl, [.gameClientCommand]⟩) := by
  intro tokens
  have table : (ucmds env tokens).find? (fun u => u.1 = cmdArgv tokens 0) = _ :=
    find_cons "userinfo".toList (proxySvUpdateUserinfoF env tokens) (ucmds env tokens).tail (cmdArgv tokens 0)
  rw [proxySvExecuteClientCommand, table]
  by_cases named : cmdArgv tokens 0 = "userinfo".toList
  · rw [if_pos named]
    exact Or.inl ⟨named, rfl⟩
  · rw [if_neg named]
    refine Or.inr ⟨named, ?_⟩
    split
    · rename_i u found
      exact Or.inl (ucmds_acts env tokens ⟨cl, []⟩ u (List.mem_of_find?_eq_some found))
    split
    · rename_i heard
      exact Or.inr ⟨heard.1, rfl⟩
    · exact Or.inl .refl

end YbeProxy.CommandSteps
