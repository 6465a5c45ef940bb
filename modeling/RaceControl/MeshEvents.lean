import RaceControl.Globals

namespace RaceControl.MeshEvents

open Esp Globals

inductive MeshEvent
  | started
  | stopped
  | childConnected (mac : MeshAddr)
  | childDisconnected (mac : MeshAddr)
  | parentConnected (selfLayer : UInt16) (bssid : MeshAddr)
  | parentDisconnected (reason : Nat)
  | layerChange (newLayer : UInt16)
  | rootAddress (addr : MeshAddr)
  | todsState (reachable : Bool)
  | other (id : Int32)
  deriving DecidableEq

def espMeshCommStart (env : Env) (vars : MeshVars) : MeshVars × List Call :=
  if vars.isCommStarted then (vars, [.startReturned .meshRx espOk])
  else
    ({ vars with isCommStarted := true },
      [.createTask .meshRx env.createTask, .startReturned .meshRx espOk])

/-- The DHCP client is started whether or not there was an interface to stop. -/
def restartDhcpc (isRoot : Bool) (vars : MeshVars) : List Call :=
  if isRoot then
    if vars.netifSta then [.dhcpcStop, .dhcpcStart] else [.dhcpcStart]
  else []

def meshEventHandler (isRoot : Bool) (env : Env) (vars : MeshVars) : MeshEvent → MeshVars × List Call
  | .started | .stopped | .parentDisconnected _ =>
      ({ vars with isMeshConnected := false, meshLayer := env.getLayer }, [])
  | .childConnected _ | .childDisconnected _ => (vars, [])
  | .parentConnected selfLayer bssid =>
      let vars := { vars with
        meshLayer := selfLayer.toNat
        meshParentAddr := bssid
        isMeshConnected := true }
      let (started, calls) := espMeshCommStart env vars
      (started, restartDhcpc isRoot vars ++ calls)
  | .layerChange newLayer => ({ vars with meshLayer := newLayer.toNat }, [])
  | .rootAddress addr => ({ vars with meshRootAddr := addr }, [])
  | .todsState _ => (vars, [])
  | .other _ => (vars, [])

def MeshEvent.root? : MeshEvent → Option MeshAddr
  | .rootAddress addr => some addr
  | _ => none

section Spec

variable (isRoot : Bool) (env : Env) (vars : MeshVars) (event : MeshEvent)

theorem espMeshCommStart_vars : (espMeshCommStart env vars).1 = { vars with isCommStarted := true } := by
  by_cases h : vars.isCommStarted = true
  · rw [espMeshCommStart, if_pos h, ← h]
  · rw [espMeshCommStart, if_neg h]

theorem meshEventHandler_running : (meshEventHandler isRoot env vars event).1.isRunning = vars.isRunning := by
  cases event with
  | parentConnected selfLayer bssid => simp only [meshEventHandler, espMeshCommStart_vars]
  | _ => rfl

theorem meshEventHandler_current :
    (meshEventHandler isRoot env vars event).1.meshCurrentAddr = vars.meshCurrentAddr := by
  cases event with
  | parentConnected selfLayer bssid => simp only [meshEventHandler, espMeshCommStart_vars]
  | _ => rfl

theorem meshEventHandler_root :
    (meshEventHandler isRoot env vars event).1.meshRootAddr = event.root?.getD vars.meshRootAddr := by
  cases event with
  | parentConnected selfLayer bssid =>
      simp only [meshEventHandler, espMeshCommStart_vars, MeshEvent.root?, Option.getD_none]
  | _ => rfl

theorem espMeshCommStart_area : ∀ c ∈ (espMeshCommStart env vars).2, c.area = .node := by
  rw [espMeshCommStart]
  split <;> simp [Call.area]

theorem restartDhcpc_area : ∀ c ∈ restartDhcpc isRoot vars, c.area = .node := by
  rw [restartDhcpc]
  split
  · split <;> simp [Call.area]
  · simp

theorem meshEventHandler_area : ∀ c ∈ (meshEventHandler isRoot env vars event).2, c.area = .node := by
  cases event with
  | parentConnected selfLayer bssid =>
      intro c hc
      rcases List.mem_append.mp hc with hc | hc
      · exact restartDhcpc_area isRoot _ c hc
      · exact espMeshCommStart_area env _ c hc
  | _ => exact fun c hc => absurd hc List.not_mem_nil

end Spec

end RaceControl.MeshEvents
