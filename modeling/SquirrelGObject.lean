import SquirrelGObject.Lib.Bytes
import SquirrelGObject.Lib.Chain
import SquirrelGObject.Lib.CountedStore
import SquirrelGObject.Lib.DepthFirst
import SquirrelGObject.Lib.Heap
import SquirrelGObject.Lib.Links
import SquirrelGObject.Lib.Runs
import SquirrelGObject.Lib.Streams
import SquirrelGObject.Lib.Triples
import SquirrelGObject.Lib.TwoWay
import SquirrelGObject.Lib.Window
import SquirrelGObject.Engine.Alike
import SquirrelGObject.Engine.Bytecode
import SquirrelGObject.Engine.BytecodeSpec
import SquirrelGObject.Engine.Call
import SquirrelGObject.Engine.Collecting
import SquirrelGObject.Engine.Collector
import SquirrelGObject.Engine.Entry
import SquirrelGObject.Engine.Inspect
import SquirrelGObject.Engine.Load
import SquirrelGObject.Engine.Machine
import SquirrelGObject.Engine.Marking
import SquirrelGObject.Engine.Object
import SquirrelGObject.Engine.OuterRuns
import SquirrelGObject.Engine.Outers
import SquirrelGObject.Engine.OutersSpec
import SquirrelGObject.Engine.PinCounts
import SquirrelGObject.Engine.RefTable
import SquirrelGObject.Engine.RefTableSpec
import SquirrelGObject.Engine.Releasing
import SquirrelGObject.Engine.Resurrecting
import SquirrelGObject.Engine.Sort
import SquirrelGObject.Engine.SortSpec
import SquirrelGObject.Engine.Stack
import SquirrelGObject.Engine.StringTable
import SquirrelGObject.Engine.StringTableSpec
import SquirrelGObject.Engine.Sweeping
import SquirrelGObject.Engine.Table
import SquirrelGObject.Engine.TableRuns
import SquirrelGObject.Engine.TableSpec
import SquirrelGObject.Engine.Values
import SquirrelGObject.Wrapper.Callback
import SquirrelGObject.Wrapper.Closure
import SquirrelGObject.Wrapper.Custody
import SquirrelGObject.Wrapper.DoFile
import SquirrelGObject.Wrapper.FreeVariables
import SquirrelGObject.Wrapper.HiddenPointer
import SquirrelGObject.Wrapper.OutParameters
import SquirrelGObject.Wrapper.Pins
import SquirrelGObject.Wrapper.Results
import SquirrelGObject.Wrapper.Storage
import SquirrelGObject.Wrapper.Threads
import SquirrelGObject.Wrapper.Trampoline
