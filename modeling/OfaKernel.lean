import OfaKernel.IbCm.CodecAgreement
import OfaKernel.IbCm.DestroyId
import OfaKernel.IbCm.ProcessWork
import OfaKernel.IbCm.TimewaitRuns
import OfaKernel.IbCore.GidTableRuns
import OfaKernel.IbCore.MulticastTable
import OfaKernel.IbCore.RdmaRwUnwind
import OfaKernel.IbCore.UdHeader
import OfaKernel.Mad.AgentRouting
import OfaKernel.Mad.DirectedRoute
import OfaKernel.Mad.RmppTransfer
import OfaKernel.Mad.SaModify
import OfaKernel.Mlx4.AttachRuns
import OfaKernel.Mlx4.BuddyComplete
import OfaKernel.Mlx4.DbPages
import OfaKernel.Mlx4.MacRefs
import OfaKernel.Mlx4.MttRange
import OfaKernel.Mlx4.MttWrite
import OfaKernel.Mlx4.PortAtomic
import OfaKernel.Mlx4.QpOwner
import OfaKernel.Mlx4.RangeSearch
import OfaKernel.Mlx4.ResQuotas
import OfaKernel.Mlx4.VfSteerSpec
import OfaKernel.Mlx4.ZoneFallback
import OfaKernel.Mlx5.AutoGroups
import OfaKernel.Mlx5.BfregRuns
import OfaKernel.Mlx5.CmdMsg
import OfaKernel.Mlx5.FteDests
import OfaKernel.Mlx5.GsiOrder
import OfaKernel.Mlx5.LargePages
import OfaKernel.Mlx5.LoopFree
import OfaKernel.Mlx5.MissChain
import OfaKernel.Mlx5.ModifyDest
import OfaKernel.Mlx5.MrCacheRuns
import OfaKernel.Mlx5.PageCounters
import OfaKernel.Mlx5.RootFt
import OfaKernel.Mlxfw.ComponentGet
import OfaKernel.Mlxfw.FlashComponent
import OfaKernel.Mlxfw.Mfa2Safety
import OfaKernel.Rxe.CqRuns
import OfaKernel.Rxe.McastFanOut
import OfaKernel.Rxe.MemServed
import OfaKernel.Rxe.PsnWindow
import OfaKernel.Rxe.RetransmitRuns
import OfaKernel.Rxe.SgeChunks
import OfaKernel.Rxe.WriteConfined
import OfaKernel.Svcrdma.CallTransfer
import OfaKernel.Svcrdma.ReadPlacement
import OfaKernel.Svcrdma.SendQueue
import OfaKernel.Xprtrdma.BudgetBound
import OfaKernel.Xprtrdma.ReplyReads
import OfaKernel.Xprtrdma.SendctxRing
