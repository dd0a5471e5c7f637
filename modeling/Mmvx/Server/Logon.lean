/-
  `LogonServer` (logonserver/LogonServer.{h,cc}): checks a client's password and asks the hub for a
  forward server. Requests and answers are correlated by the name of the client's connection.

  `queryLogonAccount` runs as a task of `MysqlConnectionPool`. What MySQL++ answers is outside the
  repository: it is the argument `QueryResult`.
-/
import Mmvx.Lib.OrdMap
import Mmvx.Server.Messages

namespace Mmvx.Server

open Mmvx.Lib

/-- What a task gets from the database: no connection from the pool, or the number of rows and
    whether the `PASSWD` of the first one equals the password given. -/
inductive QueryResult where
  | noConnection
  | stored (num_rows : Nat) (passwdEquals : Bool)
  deriving DecidableEq, Repr

structure LogonServer where
  server_ : TcpServer
  serverID_ : UInt16
  clientConns_ : OrdMap String Nat
  hubConn_ : Option Nat

namespace LogonServer

def ofConfig (hostport_ : String) (serverID_ : UInt16) : LogonServer where
  server_ := ⟨"LogonServer", hostport_, 1⟩
  serverID_ := serverID_
  clientConns_ := .empty
  hubConn_ := none

/-- The process starts again: empty tables, and connections are numbered from 1. -/
def restart (l : LogonServer) : LogonServer := ofConfig l.server_.hostport_ l.serverID_

/-- `onConnection` for a connection that is `UP`. -/
def onConnectionUp (l : LogonServer) (conn : TcpConnection) : LogonServer × List Effect :=
  ({ l with clientConns_ := l.clientConns_.insert conn.name conn.ptr }, [])

/-- `onConnection` for a connection that is `DOWN`. -/
def onConnectionDown (l : LogonServer) (conn : TcpConnection) : LogonServer × List Effect :=
  ({ l with clientConns_ := l.clientConns_.erase conn.name }, [])

/-- `onHubClientConnection` for a connection that is `UP`. -/
def onHubClientConnectionUp (l : LogonServer) (conn : TcpConnection) :
    LogonServer × List Effect :=
  ({ l with hubConn_ := some conn.ptr },
    [.send conn.ptr (.hubConnectionData
      ⟨SERVER_TYPE_LOGON.toUInt32.toInt32, l.serverID_.toUInt32.toInt32⟩)])

/-- `onHubClientConnection` for a connection that is `DOWN`. -/
def onHubClientConnectionDown (l : LogonServer) : LogonServer × List Effect :=
  ({ l with hubConn_ := none }, [])

def sendToHub (l : LogonServer) (m : Message) : List Effect := sendTo l.hubConn_ m

def sendToClient (l : LogonServer) (connName : String) (m : Message) : List Effect :=
  sendTo (l.clientConns_.find connName) m

def shutdownConn (l : LogonServer) (connName : String) : List Effect :=
  match l.clientConns_.find connName with
  | some p => [.shutdown p]
  | none => []

/-- `uint32_t` to the `int64` field `uid`. -/
def uidField (uid : UInt32) : Int64 := uid.toUInt64.toInt64

def failedRet (uid : UInt32) : LogonRet := ⟨uidField uid, .FAILED, none, none, none⟩

def queryLogonAccount (l : LogonServer) (t : Task) : QueryResult → List Effect
  | .noConnection => []
  | .stored num_rows passwdEquals =>
    if num_rows = 1 ∧ passwdEquals then
      .call (.acceptLogon t.uid) ::
        l.sendToHub (.hubLogonQueryForwardID ⟨uidField t.uid, t.connName, t.keeperServerID⟩)
    else
      l.sendToClient t.connName (.logonRet (failedRet t.uid)) ++ l.shutdownConn t.connName

/-- The task of a request; `uid` is cut to the 32 bits of the parameter. -/
def logonTask (conn : TcpConnection) (m : Logon) : Task where
  uid := m.uid.toUInt64.toUInt32
  passwd := m.passwd
  keeperServerID := m.keeperserverid
  connName := conn.name

def onLogon (l : LogonServer) (conn : TcpConnection) (m : Logon) : LogonServer × List Effect :=
  (l, [.put (logonTask conn m)])

def successRet (m : HubLogonAnswerForwardID) : LogonRet where
  uid := m.uid
  status := .SUCCESS
  forwardip := some (m.forwardip.getD "")
  forwardport := some (m.forwardport.getD 0)
  session := some (m.session.getD 0)

def onHubLogonAnswerForwardID (l : LogonServer) (m : HubLogonAnswerForwardID) :
    LogonServer × List Effect :=
  (l, l.sendToClient m.connname (.logonRet (successRet m)))

def onMessage (l : LogonServer) (conn : TcpConnection) : Message → LogonServer × List Effect
  | .logon m => l.onLogon conn m
  -- `onUnknownMessage`
  | _ => (l, [.shutdown conn.ptr])

def onHubClientMessage (l : LogonServer) (conn : TcpConnection) :
    Message → LogonServer × List Effect
  | .hubLogonAnswerForwardID m => l.onHubLogonAnswerForwardID m
  -- `onHubClientUnknownMessage`
  | _ => (l, [.shutdown conn.ptr])

end LogonServer

end Mmvx.Server
