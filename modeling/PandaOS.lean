import PandaOS.Memory.FrameOwnership
import PandaOS.Memory.FullBlocks
import PandaOS.Memory.AllocEnds
import PandaOS.Memory.StackReuse
import PandaOS.Memory.HeapSafety
import PandaOS.Memory.FreeConserves
import PandaOS.Memory.HoleAlloc
import PandaOS.Memory.FrameBitmap
import PandaOS.Memory.CloneAddress
import PandaOS.Memory.CloneBounds
import PandaOS.Filesystem.Listing
import PandaOS.Filesystem.Reading
import PandaOS.Filesystem.ImageBuilder
import PandaOS.Process.ContextSafety
import PandaOS.Screen.Terminal
import PandaOS.Drivers.Keyboard
import PandaOS.Interrupts.Transparency
import PandaOS.Memory.FrameSearch
import PandaOS.Memory.EarlyTables
import PandaOS.Screen.Numbers
import PandaOS.Utils.ArrayBounds
import PandaOS.Memory.Expansion
import PandaOS.Process.MoveStack
import PandaOS.Memory.FreeAccesses
import PandaOS.Memory.BoundaryTags
import PandaOS.Memory.SortedIndex
import PandaOS.Utils.StringCopy
import PandaOS.Utils.Memmove
import PandaOS.Utils.Comparisons
import PandaOS.Memory.CloneIsolation
import PandaOS.Memory.BootTranslation
import PandaOS.Interrupts.Delivery
import PandaOS.Kernel.Waiting
import PandaOS.Process.BootedCopy
