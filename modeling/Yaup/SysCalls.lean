import Yaup.Fstat
import Yaup.LockOrder

set_option autoImplicit false

namespace Yaup

open Lib

namespace Steps

def sysSeek (fd : Int) (offset : UInt64) (whence : Int) : Steps UInt64 := do
  if fd ≥ nrOfiles then panic "sys_seek: bad fd"
  let k ← Prog.state
  Prog.acquire (.proc k.current)
  match (k.procs k.current).filp fd with
  | none => fault
  | some none => panic "sys_seek: invalid fd"
  | some (some f) =>
      Prog.release (.proc k.current)
      let k ← Prog.state
      match seekOff (k.files f) offset whence with
      | none => panic "sys_seek: invalid reference position"
      | some off =>
          if off ≤ 0 then panic "sys_seek: bad offset"
          match (k.files f).fInode with
          | none => fault
          | some i =>
              if off ≥ (k.inodes i).iSize then panic "sys_seek: bad offset"
              Prog.change fun k => k.setFile f { k.files f with fOff := off }
              return off

def fstatInode (i : InodeId) : Steps (Int × Option Stat) := do
  let _ ← ilock i
  let k ← Prog.state
  let st := (k.inodes i).fstat
  let _ ← irelease i
  return (0, some st)

def sysFstat (ebadfd : Int) (fd : Int) : Steps (Int × Option Stat) := do
  if fd ≥ nrOfiles then return (-ebadfd, none)
  let k ← Prog.state
  match (k.procs k.current).filp fd with
  | none => fault
  | some none => return (-enoent, none)
  | some (some f) =>
      match (k.files f).fInode with
      | none => panic "sys_fstat: cannot get inode"
      | some i => fstatInode i

theorem alone_sys_seek (fd : Int) (offset : UInt64) (whence : Int) :
    alone (sysSeek fd offset whence) = Yaup.sysSeek fd offset whence := by
  rw [sysSeek, Yaup.sysSeek]
  simp only [alone_ite, alone_bind, alone_state, alone_panic, alone_acquire]
  congr 1
  refine bind_congr fun k => bind_congr fun _ => ?_
  generalize (k.procs k.current).filp fd = slot
  rcases slot with _ | _ | f
  · rfl
  · rfl
  · simp only [alone_bind, alone_release, alone_state]
    refine bind_congr fun _ => ?_
    funext t
    change EStateM.run _ t = EStateM.run _ t
    rw [run_get_bind, run_get_bind]
    generalize aimed : seekOff (t.files f) offset whence = target
    cases target with
    | none => rfl
    | some off =>
        dsimp only
        rw [alone_ite]
        by_cases zero : off ≤ 0
        · rw [if_pos zero, if_pos zero]
          rfl
        · rw [if_neg zero, if_neg zero]
          cases inode : (t.files f).fInode with
          | none => rfl
          | some i =>
              dsimp only
              rw [alone_ite]
              by_cases past : off ≥ (t.inodes i).iSize
              · rw [if_pos past, if_pos past]
                rfl
              · rw [if_neg past, if_neg past, ← inode]
                rfl

theorem alone_fstat_inode (i : InodeId) : alone (fstatInode i) = Yaup.fstatInode i := by
  simp only [fstatInode, Yaup.fstatInode, alone_bind, alone_ilock, alone_state, alone_irelease, alone_pure]

theorem alone_sys_fstat (ebadfd : Int) (fd : Int) : alone (sysFstat ebadfd fd) = Yaup.sysFstat ebadfd fd := by
  rw [sysFstat, Yaup.sysFstat]
  simp only [alone_ite, alone_bind, alone_state, alone_pure]
  congr 1
  refine bind_congr fun k => ?_
  generalize (k.procs k.current).filp fd = slot
  rcases slot with _ | _ | f
  · rfl
  · rfl
  · dsimp only
    cases (k.files f).fInode with
    | none => rfl
    | some i => exact alone_fstat_inode i

end Steps

inductive SysCall where
  | sysOpen (path : List UInt8) (flags : UInt32) (mode : UInt16)
  | sysClose (fd : Int)
  | sysRead (unset : Unset) (fd : Int) (buffsize : UInt64)
  | sysWrite (getFreePosAt : Kernel → UInt8 → Option UInt64) (block : Option BufId) (turns : Nat) (unset : Unset)
      (fd : Int) (buf : Bytes)
  | sysSeek (fd : Int) (offset : UInt64) (whence : Int)
  | sysStat (path : List UInt8)
  | sysFstat (ebadfd : Int) (fd : Int)
  | sbread (dev : Dev)

def SysCall.run : SysCall → Kern Unit
  | .sysOpen path flags mode => discard (Yaup.sysOpen path flags mode)
  | .sysClose fd => discard (Yaup.sysClose fd)
  | .sysRead unset fd buffsize => discard (Yaup.sysRead unset fd buffsize)
  | .sysWrite getFreePosAt block turns unset fd buf =>
      discard (Yaup.sysWrite (Yaup.ballocBuffer getFreePosAt block turns) unset fd buf)
  | .sysSeek fd offset whence => discard (Yaup.sysSeek fd offset whence)
  | .sysStat path => discard (Yaup.sysStat path)
  | .sysFstat ebadfd fd => discard (Yaup.sysFstat ebadfd fd)
  | .sbread dev => discard (Yaup.sbread dev)

def SysCall.steps : SysCall → Steps Unit
  | .sysOpen path flags mode => (Steps.sysOpen path flags mode).only
  | .sysClose fd => (Steps.sysClose fd).only
  | .sysRead unset fd buffsize => (Steps.sysRead unset fd buffsize).only
  | .sysWrite getFreePosAt block turns unset fd buf =>
      (Steps.sysWrite (Steps.ballocBuffer getFreePosAt block turns) unset fd buf).only
  | .sysSeek fd offset whence => (Steps.sysSeek fd offset whence).only
  | .sysStat path => (Steps.sysStat path).only
  | .sysFstat ebadfd fd => (Steps.sysFstat ebadfd fd).only
  | .sbread dev => (Steps.sbread dev).only

theorem sys_call_alone (call : SysCall) : call.steps.alone = call.run := by
  cases call with
  | sysOpen path flags mode => exact Steps.alone_only _ _ (Steps.alone_sys_open path flags mode)
  | sysClose fd => exact Steps.alone_only _ _ (Steps.alone_sys_close fd)
  | sysRead unset fd buffsize => exact Steps.alone_only _ _ (Steps.alone_sys_read unset fd buffsize)
  | sysWrite getFreePosAt block turns unset fd buf =>
      have main := Steps.alone_sys_write (Steps.ballocBuffer getFreePosAt block turns) unset fd buf
      simp only [Steps.alone_balloc_buffer] at main
      exact Steps.alone_only _ _ main
  | sysSeek fd offset whence => exact Steps.alone_only _ _ (Steps.alone_sys_seek fd offset whence)
  | sysStat path => exact Steps.alone_only _ _ (Steps.alone_sys_stat path)
  | sysFstat ebadfd fd => exact Steps.alone_only _ _ (Steps.alone_sys_fstat ebadfd fd)
  | sbread dev => exact Steps.alone_only _ _ (Steps.alone_sbread dev)

end Yaup
