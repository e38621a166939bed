import Fos.Boot.AddressSpace
import Fos.Sched.EnvIds
import Fos.Sched.Status
import Fos.Memory.Sharing
import Fos.Memory.Abandoned
import Fos.Sched.Fairness
import Fos.UserHeap.BestFit
import Fos.UserHeap.Backed
import Fos.PageFile.Conservation
import Fos.PageFile.Contents
import Fos.PageFile.Zeroes
import Fos.WorkingSet.Loading
import Fos.WorkingSet.Termination
import Fos.WorkingSet.IllegalAccess
import Fos.WorkingSet.Release
import Fos.WorkingSet.Reclaim
import Fos.UserHeap.Runs
import Fos.UserHeap.Table
import Fos.Loader.Create
import Fos.Loader.Headers
import Fos.Queue.Sequences
import Fos.Queue.Foreach
import Fos.Strings.Ltostr
import Fos.Strings.Formats
import Fos.Strings.Printed
import Fos.Strings.Strsplit
import Fos.Screen
import Fos.Kdebug.Enclosing
import Fos.Console
import Fos.Prompt.Execute
import Fos.Prompt.Readline
import Fos.Memory.Scarce
import Fos.Memory.Paging
import Fos.Memory.RemoveTable
import Fos.Memory.AllocatePage
import Fos.Memory.FramesStorage
import Fos.WorkingSet.Required
import Fos.WorkingSet.Counting
import Fos.WorkingSet.DemandPaging
import Fos.Trap.Computers
