/-
  `HubServer` (hubserver/HubServer.{h,cc}): for each keeper the forward servers it has started with
  their number of client connections, and the connections of the keepers and of the logon server.
-/
import Mmvx.Lib.OrdMap
import Mmvx.Server.Messages

namespace Mmvx.Server

open Mmvx.Lib

structure ForwardServerData where
  id : UInt16
  ip : String
  port : UInt16
  numConnections : UInt16
  deriving DecidableEq, Repr

structure HubServer where
  forwardConns_ : OrdMap UInt16 (List ForwardServerData)
  keeperConns_ : OrdMap UInt16 Nat
  logonConn_ : Option Nat

namespace HubServer

def empty : HubServer := ⟨.empty, .empty, none⟩

/-- `onConnection` for a connection that is `DOWN`; for one that is `UP` it does nothing. -/
def onConnection (h : HubServer) (conn : TcpConnection) : HubServer × List Effect :=
  if h.logonConn_ = some conn.ptr then ({ h with logonConn_ := none }, [])
  else ({ h with keeperConns_ := h.keeperConns_.eraseValue conn.ptr }, [])

def onHubConnectionData (h : HubServer) (conn : TcpConnection) (m : HubConnectionData) :
    HubServer × List Effect :=
  if m.servertype = SERVER_TYPE_LOGON.toUInt32.toInt32 then
    ({ h with logonConn_ := some conn.ptr }, [])
  else if m.servertype = SERVER_TYPE_KEEPER.toUInt32.toInt32 then
    ({ h with keeperConns_ := h.keeperConns_.insert m.serverid.toUInt32.toUInt16 conn.ptr }, [])
  else (h, [])

def sendToKeeper (h : HubServer) (id : UInt16) (m : Message) : List Effect :=
  sendTo (h.keeperConns_.find id) m

def sendToLogon (h : HubServer) (m : Message) : List Effect := sendTo h.logonConn_ m

def onHubKeeperLogonSessionRet (h : HubServer) (m : LogonSessionRet) : HubServer × List Effect :=
  (h, h.sendToLogon (.hubLogonAnswerForwardID
    { uid := m.uid
      connname := m.connname
      forwardip := some m.forwardip
      forwardport := some m.forwardport.toUInt32
      session := some m.session.toUInt32 }))

/-- The `for` loop of `onHubKeeperUpdateForwardConns` at the entry it looks for. -/
def updateEntry (oper : Operation) (d : ForwardServerData) (ds : List ForwardServerData) :
    List ForwardServerData :=
  match oper with
  | .REMOVE => ds
  | .INC => { d with numConnections := d.numConnections + 1 } :: ds
  | .DEC => { d with numConnections := d.numConnections - 1 } :: ds
  | .ADD => d :: ds

/-- The loop: the first entry with the id is updated. -/
def updateFirst (forwardID : UInt16) (oper : Operation) :
    List ForwardServerData → List ForwardServerData
  | [] => []
  | d :: ds =>
    if d.id = forwardID then updateEntry oper d ds else d :: updateFirst forwardID oper ds

/-- `forwardList` after one update. -/
def updateList (forwardID : UInt16) (forwardIP : String) (forwardPort : UInt16) (oper : Operation)
    (forwardList : List ForwardServerData) : List ForwardServerData :=
  match oper with
  | .ADD => forwardList ++ [⟨forwardID, forwardIP, forwardPort, 0⟩]
  | _ => updateFirst forwardID oper forwardList

/-- `forwardConns_[keeperID]`, which is empty where there is no entry. -/
def forwards (h : HubServer) (keeperID : UInt16) : List ForwardServerData :=
  (h.forwardConns_.find keeperID).getD []

def onHubKeeperUpdateForwardConns (h : HubServer) (m : UpdateForwardConns) :
    HubServer × List Effect :=
  let keeperID := m.keeperserverid.toUInt16
  ({ h with
      forwardConns_ := h.forwardConns_.insert keeperID
        (updateList m.forwardserverid.toUInt16 m.forwardip m.forwardport.toUInt16 m.oper
          (h.forwards keeperID)) }, [])

/-- `std::min_element` with `operator<` on `numConnections`: the first smallest. -/
def minElement (d : ForwardServerData) (ds : List ForwardServerData) : ForwardServerData :=
  ds.foldl (fun m d => if d.numConnections < m.numConnections then d else m) d

def onHubLogonQueryForwardID (h : HubServer) (m : HubLogonQueryForwardID) :
    HubServer × List Effect :=
  let keeperServerID := m.keeperserverid
  match h.forwards keeperServerID.toUInt16 with
  | d :: ds =>
    (h, h.sendToKeeper keeperServerID.toUInt16 (.hubKeeperLogonSession
      { uid := m.uid
        connname := m.connname
        forwardserverid := (minElement d ds).id.toUInt32.toInt32 }))
  | [] => (h, [])

def onMessage (h : HubServer) (conn : TcpConnection) : Message → HubServer × List Effect
  | .hubKeeperUpdateForwardConns m => h.onHubKeeperUpdateForwardConns m
  | .hubLogonQueryForwardID m => h.onHubLogonQueryForwardID m
  | .hubConnectionData m => h.onHubConnectionData conn m
  | .hubKeeperLogonSessionRet m => h.onHubKeeperLogonSessionRet m
  -- `onUnknownMessage`
  | _ => (h, [.shutdown conn.ptr])

end HubServer

end Mmvx.Server
