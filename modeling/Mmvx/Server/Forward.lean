/-
  A forward server process: `KeeperClient` and the `ForwardServer` it creates when the keeper
  answers (forwardserver/*.{h,cc}).

  The connections of clients to a forward server are counted; what is sent on them is not
  modelled, apart from the check of a session. `rand()` is an argument of the handler.
-/
import Mmvx.Lib.OrdMap
import Mmvx.Server.Messages

namespace Mmvx.Server

open Mmvx.Lib

structure ForwardServer where
  listenAddr_ : InetAddress
  keeperServerID_ : UInt16
  serverID_ : UInt16
  logonSessions_ : OrdMap Int64 Int32
  /-- The number of client connections that are up. -/
  clients : Nat

namespace ForwardServer

/-- The message of `onConnection`. -/
def updateMessage (f : ForwardServer) (oper : Operation) : UpdateForwardConns where
  keeperserverid := f.keeperServerID_.toUInt32
  forwardserverid := f.serverID_.toUInt32
  forwardip := f.listenAddr_.ip
  forwardport := f.listenAddr_.port.toUInt32
  oper := oper

def addLogonSession (f : ForwardServer) (uid : Int64) (session : Int32) : ForwardServer :=
  { f with logonSessions_ := f.logonSessions_.insert uid session }

/-- `checkLogonForwardSession` for `LogonForward` with `uid` and `session`: whether it is accepted;
    the connection is shut down if it is not. -/
def checkLogonForwardSession (f : ForwardServer) (uid : Int64) (session : Int32) :
    ForwardServer × Bool :=
  ({ f with logonSessions_ := f.logonSessions_.erase uid },
    f.logonSessions_.find uid = some session)

end ForwardServer

structure KeeperClient where
  conn_ : Option Nat
  forwardServer_ : Option ForwardServer

namespace KeeperClient

def empty : KeeperClient := ⟨none, none⟩

def sendToKeeper (k : KeeperClient) (m : Message) : List Effect := sendTo k.conn_ m

/-- `onConnection` for a connection that is `UP`. -/
def onConnectionUp (k : KeeperClient) (conn : TcpConnection) : KeeperClient × List Effect :=
  ({ k with conn_ := some conn.ptr },
    [.send conn.ptr (.keeperQuery ⟨SERVER_TYPE_FORWARD.toUInt32⟩)])

/-- `onConnection` for a connection that is `DOWN`. -/
def onConnectionDown (k : KeeperClient) : KeeperClient × List Effect :=
  ({ k with conn_ := none }, [])

/-- `ForwardServer::onConnection`. -/
def onForwardConnection (k : KeeperClient) (f : ForwardServer) (oper : Operation) : List Effect :=
  k.sendToKeeper (.keeperForwardUpdateForwardConns (f.updateMessage oper))

/-- The forward server of an answer. -/
def forwardServer (m : KeeperAnswer) : ForwardServer where
  listenAddr_ := ⟨m.ip, m.port.toUInt16⟩
  keeperServerID_ := m.keeperserverid.toUInt16
  serverID_ := m.serverid.toUInt16
  logonSessions_ := .empty
  clients := 0

/-- `forwardServer_.reset`: the connections of the old server go down with it. -/
def onAnswer (k : KeeperClient) (m : KeeperAnswer) : KeeperClient × List Effect :=
  ({ k with forwardServer_ := some (forwardServer m) },
    match k.forwardServer_ with
    | some f => (List.replicate f.clients (k.onForwardConnection f .DEC)).flatten
    | none => [])

def sessionRet (f : ForwardServer) (m : KeeperForwardLogonSession) (session : Int32) :
    LogonSessionRet where
  uid := m.uid
  connname := m.connname
  forwardip := f.listenAddr_.ip
  forwardport := f.listenAddr_.port.toUInt32.toInt32
  session := session

def onKeeperForwardLogonSession (k : KeeperClient) (m : KeeperForwardLogonSession)
    (session : Int32) : KeeperClient × List Effect :=
  match k.forwardServer_ with
  | some f =>
    ({ k with forwardServer_ := some (f.addLogonSession m.uid session) },
      .call (.addLogonSession m.uid session m.connname f.listenAddr_) ::
        k.sendToKeeper (.keeperForwardLogonSessionRet (sessionRet f m session)))
  | none => (k, [.call .assertFailed])

def onMessage (k : KeeperClient) (conn : TcpConnection) (rand : Int32) :
    Message → KeeperClient × List Effect
  | .keeperAnswer m => k.onAnswer m
  | .keeperForwardLogonSession m => k.onKeeperForwardLogonSession m rand
  -- `onUnknownMessage`
  | _ => (k, [.shutdown conn.ptr])

/-- A client connects to the forward server. -/
def onClientUp (k : KeeperClient) : Option (KeeperClient × List Effect) :=
  k.forwardServer_.map fun f =>
    ({ k with forwardServer_ := some { f with clients := f.clients + 1 } },
      k.onForwardConnection f .INC)

/-- A client's connection to the forward server goes down. -/
def onClientDown (k : KeeperClient) : Option (KeeperClient × List Effect) :=
  match k.forwardServer_ with
  | some f =>
    if 0 < f.clients then
      some ({ k with forwardServer_ := some { f with clients := f.clients - 1 } },
        k.onForwardConnection f .DEC)
    else none
  | none => none

/-- A client sends `LogonForward`. -/
def onLogonForward (k : KeeperClient) (uid : Int64) (session : Int32) : Option KeeperClient :=
  k.forwardServer_.map fun f =>
    { k with forwardServer_ := some (f.checkLogonForwardSession uid session).1 }

end KeeperClient

end Mmvx.Server
