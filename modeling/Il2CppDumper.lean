import Il2CppDumper.Buffers
import Il2CppDumper.Dobby.EntryList
import Il2CppDumper.Dobby.Rehook
import Il2CppDumper.Dump.Body
import Il2CppDumper.Dump.Enum
import Il2CppDumper.Dump.File
import Il2CppDumper.Dump.Moved
import Il2CppDumper.Dump.Property
import Il2CppDumper.Dump.Reflection
import Il2CppDumper.Dump.Report
import Il2CppDumper.Dump.Symbols
import Il2CppDumper.Hook.Callbacks
import Il2CppDumper.Hook.Calls
import Il2CppDumper.Hook.Game
import Il2CppDumper.Hook.Refine
import Il2CppDumper.Hook.Serial
import Il2CppDumper.Hook.Threads
import Il2CppDumper.Maps.Base
import Il2CppDumper.Maps.Chunks
import Il2CppDumper.Maps.Pieces
