import YbeProxy.NetStatusTable
import YbeProxy.Redirect

/-!
# The status command

`Proxy_SV_Status_f` of `Engine/Hooks/server/sv_ccmds.cpp`: the texts it gives to `Com_Printf`, which a remote command collects
in a buffer of 1008 characters.
-/

namespace YbeProxy.StatusTable
open YbeProxy.Strings YbeProxy.Redirect YbeProxy.NetStatusTable
open YbeProxy.ClientMessage (ClientState)

structure StatusClient where
  state : ClientState
  isBot : Bool
  score : Int32
  ping : Int32
  rate : Int32
  /-- What `NET_AdrToString` gives. -/
  address : CString
  name : CString
  addressFits : address.length < 64
  nameFits : name.length < 32

structure Server where
  comSvRunning : Bool
  hostname : CString
  netIp : CString
  netPort : Int32
  os : CString
  /-- `com_dedicated`, as its table names it. -/
  dedicated : CString
  gameDir : CString
  mapname : CString
  gametype : Int32
  svMaxclients : Int32
  svPrivateClients : Int32
  clients : List StatusClient
  few : clients.length ≤ 32

/-! ## What is printed -/

def StatusClient.connected (cl : StatusClient) : Bool := cl.state ≠ .csFree && cl.state ≠ .csZombie
def Server.humans (server : Server) : Nat := server.clients.countP fun cl => cl.connected && !cl.isBot
def Server.bots (server : Server) : Nat := server.clients.countP fun cl => cl.connected && cl.isBot

def gametypeNames : List CString :=
  ["FFA", "Holocron", "Jedimaster", "Duel", "PowerDuel", "Single", "TFFA", "Siege", "CTF", "CTY"].map String.toList

def gametypeName (gametype : Int32) : CString :=
  if 0 ≤ gametype ∧ gametype < 10 then gametypeNames.getD gametype.toInt.toNat [] else "Unknown".toList

def stateText (cl : StatusClient) : CString :=
  match cl.state with
  | .csConnected => "CON ".toList
  | .csZombie => "ZMB ".toList
  | _ =>
    if cl.isBot then "BOT ".toList
    else comSprintf 32 (number 4 (if cl.ping < 9999 then cl.ping else 9999 : Int32).toInt)

def row (i : Nat) (cl : StatusClient) : CString :=
  number 5 cl.score.toInt ++ [' '] ++ column 4 (stateText cl) ++ [' '] ++ number 6 cl.rate.toInt ++ [' '] ++
    column 22 cl.address ++ [' '] ++ number 2 i ++ [' '] ++ cl.name ++ ['^', '7', '\n']

def rows (clients : List StatusClient) : List CString :=
  (clients.zipIdx.filter fun slot => slot.1.state ≠ .csFree).map fun slot => row slot.2 slot.1

def headLines (server : Server) : List CString :=
  ["hostname: ".toList ++ qStripColor (qStrncpyz server.hostname 256) ++ "^7\n".toList,
    "server  : ".toList ++ server.netIp ++ [':'] ++ decimalInt server.netPort.toInt ++ ", ".toList ++ server.os ++ ", ".toList ++
      server.dedicated ++ ['\n'],
    "game    : 1.0.1.0 26, ".toList ++ server.gameDir ++ ['\n'],
    "map     : ^7".toList ++ server.mapname ++ "^7, ".toList ++ gametypeName server.gametype ++ ['('] ++
      decimalInt server.gametype.toInt ++ ")\n".toList,
    "players : ".toList ++ decimal server.humans ++ (if server.humans = 1 then " human, ".toList else " humans, ".toList) ++
      decimal server.bots ++ (if server.bots = 1 then " bot(".toList else " bots(".toList) ++
      decimalInt (server.svMaxclients - server.svPrivateClients).toInt ++ " max)\n".toList]

def columnLines : List CString :=
  ["score ping rate   address                id name \n".toList, "----- ---- ------ ---------------------- -- ---------------\n".toList]

def proxySvStatusF (server : Server) : List CString :=
  if server.comSvRunning then headLines server ++ columnLines ++ rows server.clients ++ [['\n']]
  else ["Server is not running.\n".toList]

/-! ## Lengths -/

/-- The texts of the cvars leave room in a line. -/
structure Short (server : Server) : Prop where
  netIp : server.netIp.length ≤ 800
  os : server.os.length ≤ 10
  dedicated : server.dedicated.length ≤ 20
  gameDir : server.gameDir.length ≤ 800
  mapname : server.mapname.length ≤ 800

theorem length_qStripColor_le (text : CString) : (qStripColor text).length ≤ text.length := by
  induction text using qStripColor.induct with
  | case1 text pass hypothesis =>
    rw [qStripColor, if_pos pass]
    exact hypothesis.trans (length_stripColorPass text).1
  | case2 text pass =>
    rw [qStripColor, if_neg pass]
    exact (length_stripColorPass text).1

theorem narrow_stateText (cl : StatusClient) : Narrow (stateText cl) := by
  have literal : ∀ text ∈ ["CON ", "ZMB ", "BOT "], Narrow text.toList := by decide
  rw [stateText]
  split
  · exact literal _ (by decide)
  · exact literal _ (by decide)
  · split
    · exact literal _ (by decide)
    · exact narrow_cut (narrow_int (by decide) _) 32

theorem length_row_le {i : Nat} (slot : i < 32) (cl : StatusClient) : (row i cl).length ≤ 1007 := by
  have int (width : Nat) (small : width ≤ 11) (n : Int32) : (number width n.toInt).length ≤ 11 := (narrow_int small n).1
  have score := int 5 (by decide) cl.score
  have rate := int 6 (by decide) cl.rate
  have id : (number 2 i).length ≤ 11 := (narrow_number (by decide) (by omega) (by omega)).1
  have state : (column 4 (stateText cl)).length ≤ 11 := (narrow_column (by decide) (narrow_stateText cl)).1
  have address : (column 22 cl.address).length ≤ 64 := by
    have fits := cl.addressFits
    rw [column, List.leftpad, List.length_append, List.length_replicate]
    omega
  have name := cl.nameFits
  simp only [row, List.length_append, List.length_cons, List.length_nil]
  omega

theorem length_rows_le {clients : List StatusClient} (few : clients.length ≤ 32) :
    ∀ text ∈ rows clients, text.length ≤ 1007 := by
  intro text member
  obtain ⟨slot, listed, rfl⟩ := List.mem_map.mp member
  have inside := (List.mem_zipIdx (List.mem_of_mem_filter listed)).2.1
  exact length_row_le (by omega) slot.1

theorem length_gametypeName_le (gametype : Int32) : (gametypeName gametype).length ≤ 10 := by
  have names : ∀ name ∈ gametypeNames, name.length ≤ 10 := by decide
  rw [gametypeName]
  split
  · rw [List.getD_eq_getElem?_getD]
    cases found : gametypeNames[gametype.toInt.toNat]? with
    | none => exact Nat.zero_le _
    | some name => exact names name (List.mem_of_getElem? found)
  · decide

theorem length_headLines_le {server : Server} (short : Short server) : ∀ text ∈ headLines server, text.length ≤ 1007 := by
  have int (n : Int32) : (decimalInt n.toInt).length ≤ 11 :=
    (narrow_decimalInt n.le_toInt (Int.le_of_lt_add_one n.toInt_lt)).1
  have count (p : StatusClient → Bool) : (decimal (server.clients.countP p)).length ≤ 2 := by
    have inside := List.countP_le_length (p := p) (l := server.clients)
    have few := server.few
    exact CleanNames.length_decimal_le_two (by omega)
  have hostname : (qStripColor (qStrncpyz server.hostname 256)).length ≤ 255 :=
    (length_qStripColor_le _).trans (List.length_take_le _ _)
  obtain ⟨netIp, os, dedicated, gameDir, mapname⟩ := short
  have port := int server.netPort
  have gametype := int server.gametype
  have room := int (server.svMaxclients - server.svPrivateClients)
  have name := length_gametypeName_le server.gametype
  have humans := count fun cl => cl.connected && !cl.isBot
  have bots := count fun cl => cl.connected && cl.isBot
  have humanWord : (if server.humans = 1 then " human, ".toList else " humans, ".toList).length ≤ 10 := by
    split <;> decide
  have botWord : (if server.bots = 1 then " bot(".toList else " bots(".toList).length ≤ 10 := by
    split <;> decide
  have literals : "hostname: ".toList.length = 10 ∧ "^7\n".toList.length = 3 ∧ "server  : ".toList.length = 10 ∧
    ", ".toList.length = 2 ∧ "game    : 1.0.1.0 26, ".toList.length = 22 ∧ "map     : ^7".toList.length = 12 ∧
    "^7, ".toList.length = 4 ∧ ")\n".toList.length = 2 ∧ "players : ".toList.length = 10 ∧ " max)\n".toList.length = 6 := by
    decide
  simp only [Server.humans, Server.bots] at humanWord botWord
  simp only [headLines, List.forall_mem_cons, List.length_append, List.length_cons, List.length_nil, Server.humans,
    Server.bots]
  refine ⟨?_, ?_, ?_, ?_, ?_, List.forall_mem_nil _⟩ <;> omega

/-! ## Players -/

def Server.zombies (server : Server) : Nat := server.clients.countP fun cl => cl.state = .csZombie

theorem countP_split (clients : List StatusClient) :
    clients.countP (fun cl => cl.state ≠ .csFree) =
      clients.countP (fun cl => cl.connected && !cl.isBot) + clients.countP (fun cl => cl.connected && cl.isBot) +
        clients.countP fun cl => cl.state = .csZombie := by
  induction clients with
  | nil => rfl
  | cons cl rest hypothesis =>
    rw [List.countP_cons, List.countP_cons, List.countP_cons, List.countP_cons, hypothesis]
    cases state : cl.state <;> cases cl.isBot <;> simp [StatusClient.connected, state] <;> omega

/-- A row for every client that the players line counts, and for every zombie. -/
theorem length_rows (server : Server) :
    (rows server.clients).length = server.humans + server.bots + server.zombies := by
  have unnumbered : server.clients.zipIdx.map Prod.fst = server.clients := List.zipIdx_map_fst 0 server.clients
  have used : server.clients.zipIdx.countP (fun slot => slot.1.state ≠ .csFree) =
      server.clients.countP fun cl => cl.state ≠ .csFree := by
    conv_rhs => rw [← unnumbered, List.countP_map]
    rfl
  rw [rows, List.length_map, ← List.countP_eq_length_filter, used]
  exact countP_split server.clients

/-- A remote command gets every line of the status whole, with a row for each player that it counts and each zombie. -/
theorem status_reaches_sender (server : Server) (short : Short server) :
    (redirected 1008 (Nat.succ_pos 1007) (proxySvStatusF server)).flatten = (proxySvStatusF server).flatten ∧
      (∀ text ∈ redirected 1008 (Nat.succ_pos 1007) (proxySvStatusF server), text.length ≤ 1007) ∧
      (rows server.clients).length = server.humans + server.bots + server.zombies := by
  have lines : ∀ text ∈ proxySvStatusF server, text.length ≤ 1007 := by
    have columns : ∀ text ∈ columnLines, text.length ≤ 1007 := by decide
    rw [proxySvStatusF]
    split
    · simp only [List.forall_mem_append, List.forall_mem_singleton]
      exact ⟨⟨⟨length_headLines_le short, columns⟩, length_rows_le server.few⟩, by decide⟩
    · decide
  obtain ⟨kept, small⟩ := redirected_flatten 1008 (Nat.succ_pos 1007) (proxySvStatusF server)
    fun text member => (lines text member).trans (by decide)
  have whole : (proxySvStatusF server).filter (Holds 1008 ·) = proxySvStatusF server :=
    List.filter_eq_self.mpr fun text member => decide_eq_true (lines text member)
  rw [whole] at kept
  exact ⟨kept, small, length_rows server⟩

theorem short_address : "192.168.0.2:29070".toList.length < 64 := by decide

def lonePlayer : StatusClient :=
  ⟨.csActive, false, 3, 48, 25000, "192.168.0.2:29070".toList, "Padawan".toList, short_address, short_padawan⟩

def dedicatedServer : Server :=
  ⟨true, "^1My ^7server".toList, "localhost".toList, 29070, "Linux".toList, "Public dedicated".toList, "base".toList,
    "mp/ffa3".toList, 0, 8, 0, [lonePlayer], Nat.succ_le_succ (Nat.zero_le 31)⟩

theorem status_reaches_sender_sample :
    (redirected 1008 (Nat.succ_pos 1007) (proxySvStatusF dedicatedServer)).flatten =
      (proxySvStatusF dedicatedServer).flatten ∧
      (∀ text ∈ redirected 1008 (Nat.succ_pos 1007) (proxySvStatusF dedicatedServer), text.length ≤ 1007) ∧
      (rows dedicatedServer.clients).length =
        dedicatedServer.humans + dedicatedServer.bots + dedicatedServer.zombies :=
  status_reaches_sender dedicatedServer ⟨by decide, by decide, by decide, by decide, by decide⟩

end YbeProxy.StatusTable
