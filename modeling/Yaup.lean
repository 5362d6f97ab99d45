import Yaup.Lib.Run
import Yaup.Lib.Window
import Yaup.Lib.LittleEndian
import Yaup.Lib.Scan
import Yaup.Lib.Text
import Yaup.Kernel
import Yaup.BufferCounts
import Yaup.BufferKeys
import Yaup.BufferInterleaving
import Yaup.InodeTable
import Yaup.InodePersistence
import Yaup.LockRuns
import Yaup.InodeRefs
import Yaup.ReadBack
import Yaup.LiveBuffers
import Yaup.LoginGuard
import Yaup.Lib.LockOrder
import Yaup.Alloc
import Yaup.Steps
import Yaup.Alone
import Yaup.LockOrder
import Yaup.BufferBalance
import Yaup.NameiPath
import Yaup.FlagGuard
import Yaup.BlockAlloc
import Yaup.InodeAlloc
import Yaup.Bitmap
import Yaup.CallFrame
import Yaup.FileTable
import Yaup.FileSharing
import Yaup.FileCounts
import Yaup.RootSlot
import Yaup.CursorBounds
import Yaup.InodeKeys
import Yaup.Lib.Words
import Yaup.Shell
import Yaup.Lib.Slots
import Yaup.ShellDispatch
import Yaup.ShellEnv
import Yaup.ShellKept
import Yaup.Session
import Yaup.Useradd
import Yaup.AddedUsers
import Yaup.FileSystem
import Yaup.WalkRuns
import Yaup.ChangerWalks
import Yaup.CwdKept
import Yaup.RecursiveChange
import Yaup.RemoveTree
import Yaup.BitmapPos
import Yaup.Fstat
import Yaup.Permissions
import Yaup.DirRecords
import Yaup.OpenAnswer
import Yaup.BlockFree
import Yaup.ReadRange
import Yaup.CpRight
import Yaup.Cksum
import Yaup.Lib.Cells
import Yaup.ShellLines
import Yaup.Echo
import Yaup.EnvScans
import Yaup.FindCmd
import Yaup.Tee
import Yaup.UserLine
import Yaup.Lib.Lists
import Yaup.Sum
import Yaup.Cmp
import Yaup.Lib.Chains
import Yaup.Translate
import Yaup.Counts
import Yaup.FileLines
import Yaup.ParseMode
import Yaup.Lib.Lines
import Yaup.Nl
import Yaup.Lib.Matching
import Yaup.Grep
import Yaup.GrepMatch
import Yaup.GetDelim
import Yaup.GetGid
import Yaup.Memset
import Yaup.EnvValue
import Yaup.Ls
import Yaup.Umask
import Yaup.ChangeMains
import Yaup.ChownLoop
import Yaup.DiskUsage
import Yaup.FindPath
import Yaup.Lib.RelyGuarantee
import Yaup.SysCalls
import Yaup.Effects
import Yaup.CallEffects
import Yaup.CallRuns
import Yaup.CallHistory
import Yaup.StoreReplay
import Yaup.Lib.CallStack
import Yaup.NestedShells
import Yaup.CksumBursts
import Yaup.RmMain
import Yaup.Lib.TreeMove
import Yaup.MvMain
import Yaup.CopyPrints
import Yaup.Lib.TreeEdits
import Yaup.ToolEdits
import Yaup.ToolSessions
