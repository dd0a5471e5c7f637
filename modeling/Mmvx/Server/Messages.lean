/-
  The messages of proto/*.proto, and what a message handler of a server can do.

  Fields have the widths of the .proto files; a conversion in a handler is the C++ conversion
  between the two widths. All messages are required to be complete on the wire, so only fields
  declared `optional` are options here.

  A handler is a function from the server's tables to its new tables and a list of effects, in the
  order of the calls. A `TcpConnectionPtr` is the number of the connection's end.
-/
import Mathlib.Init

namespace Mmvx.Server

def SERVER_TYPE_LOGON : UInt16 := 11

def SERVER_TYPE_FORWARD : UInt16 := 31

def SERVER_TYPE_KEEPER : UInt16 := 101

/-! ## logon.proto -/

structure Logon where
  uid : Int64
  uname : String
  passwd : String
  keeperserverid : UInt32
  deriving DecidableEq, Repr

/-- `LogonRet::status` is "SUCCESS" or "FAILED". -/
inductive Status where
  | SUCCESS | FAILED
  deriving DecidableEq, Repr

structure LogonRet where
  uid : Int64
  status : Status
  forwardip : Option String
  forwardport : Option UInt32
  session : Option UInt32
  deriving DecidableEq, Repr

/-! ## hub.proto, hubLogon.proto, hubKeeper.proto -/

structure HubConnectionData where
  servertype : Int32
  serverid : Int32
  deriving DecidableEq, Repr

structure HubLogonQueryForwardID where
  uid : Int64
  connname : String
  keeperserverid : UInt32
  deriving DecidableEq, Repr

structure HubLogonAnswerForwardID where
  uid : Int64
  connname : String
  forwardip : Option String
  forwardport : Option UInt32
  session : Option UInt32
  deriving DecidableEq, Repr

inductive Operation where
  | ADD | REMOVE | INC | DEC
  deriving DecidableEq, Repr

/-- `HubKeeperUpdateForwardConns` and `KeeperForwardUpdateForwardConns` have the same fields. -/
structure UpdateForwardConns where
  keeperserverid : UInt32
  forwardserverid : UInt32
  forwardip : String
  forwardport : UInt32
  oper : Operation
  deriving DecidableEq, Repr

structure HubKeeperLogonSession where
  uid : Int64
  connname : String
  forwardserverid : Int32
  deriving DecidableEq, Repr

/-- `HubKeeperLogonSessionRet` and `KeeperForwardLogonSessionRet` have the same fields. -/
structure LogonSessionRet where
  uid : Int64
  connname : String
  forwardip : String
  forwardport : Int32
  session : Int32
  deriving DecidableEq, Repr

/-! ## keeperForward.proto -/

structure KeeperQuery where
  servertype : UInt32
  deriving DecidableEq, Repr

structure KeeperAnswer where
  keeperserverid : UInt32
  serverid : UInt32
  ip : String
  port : UInt32
  threads : UInt32
  deriving DecidableEq, Repr

structure KeeperForwardLogonSession where
  uid : Int64
  connname : String
  deriving DecidableEq, Repr

inductive Message where
  | logon (m : Logon)
  | logonRet (m : LogonRet)
  | hubConnectionData (m : HubConnectionData)
  | hubLogonQueryForwardID (m : HubLogonQueryForwardID)
  | hubLogonAnswerForwardID (m : HubLogonAnswerForwardID)
  | hubKeeperUpdateForwardConns (m : UpdateForwardConns)
  | hubKeeperLogonSession (m : HubKeeperLogonSession)
  | hubKeeperLogonSessionRet (m : LogonSessionRet)
  | keeperQuery (m : KeeperQuery)
  | keeperAnswer (m : KeeperAnswer)
  | keeperForwardUpdateForwardConns (m : UpdateForwardConns)
  | keeperForwardLogonSession (m : KeeperForwardLogonSession)
  | keeperForwardLogonSessionRet (m : LogonSessionRet)
  deriving DecidableEq, Repr

/-! ## Effects of a handler -/

/-- `muduo::net::InetAddress`. Addresses are written as canonical dotted quads, on which
    `inet_pton` and `inet_ntop` are inverse. -/
structure InetAddress where
  ip : String
  port : UInt16
  deriving DecidableEq, Repr

/-- What a handler uses of the connection it is called for. -/
structure TcpConnection where
  ptr : Nat
  name : String
  peerIp : String
  deriving DecidableEq, Repr

/-- `boost::bind(&LogonServer::queryLogonAccount, this, uid, passwd, keeperServerID, connName)`:
    the arguments have the types of the parameters when the task runs. -/
structure Task where
  uid : UInt32
  passwd : String
  keeperServerID : UInt32
  connName : String
  deriving DecidableEq, Repr

/-- Calls that leave no trace on the network. -/
inductive Call where
  /-- `queryLogonAccount` found the account and its password. -/
  | acceptLogon (uid : UInt32)
  /-- `ForwardServer::addLogonSession` for a request that carries `uid` and `connname`. -/
  | addLogonSession (uid : Int64) (session : Int32) (connname : String) (listenAddr : InetAddress)
  /-- `assert(forwardServer_)` fails. -/
  | assertFailed
  deriving DecidableEq, Repr

inductive Effect where
  | send (conn : Nat) (m : Message)
  | shutdown (conn : Nat)
  | put (t : Task)
  | call (c : Call)
  deriving DecidableEq, Repr

/-- `if (conn) codec_.send(conn, msg);` -/
def sendTo (conn : Option Nat) (m : Message) : List Effect :=
  match conn with
  | some p => [.send p m]
  | none => []

theorem mem_sendTo {conn : Option Nat} {m : Message} {e : Effect} :
    e ∈ sendTo conn m ↔ ∃ p, conn = some p ∧ e = .send p m := by
  cases conn with
  | none => simp [sendTo]
  | some p => simp [sendTo]

/-! ## Names of connections -/

structure TcpServer where
  name_ : String
  hostport_ : String
  nextConnId_ : Nat
  deriving DecidableEq, Repr

/-- `TcpServer::newConnection`: `snprintf` into `char buf[32]`. -/
def TcpServer.newConnection (s : TcpServer) : String × TcpServer :=
  let buf := String.ofList ((":" ++ s.hostport_ ++ "#" ++ toString s.nextConnId_).toList.take 31)
  (s.name_ ++ buf, { s with nextConnId_ := s.nextConnId_ + 1 })

end Mmvx.Server
