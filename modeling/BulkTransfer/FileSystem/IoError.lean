/-!
# Input and output errors

A failed file operation reports an error number of the operating system, or one
of a fixed list of causes with or without a text of its own.  Every error
belongs to a cause; the cause decides how a transfer reacts.
-/

namespace BulkTransfer

/-- What went wrong, independent of the operation. -/
inductive IoCause
  | addrInUse | addrNotAvailable | alreadyExists | argumentListTooLong | brokenPipe
  | connectionAborted | connectionRefused | connectionReset | crossesDevices | deadlock
  | directoryNotEmpty | executableFileBusy | fileTooLarge | filesystemLoop
  | hostUnreachable | inProgress | interrupted | invalidData | invalidFilename
  | invalidInput | isADirectory | networkDown | networkUnreachable | notADirectory
  | notConnected | notFound | notSeekable | other | outOfMemory | permissionDenied
  | quotaExceeded | readOnlyFilesystem | resourceBusy | staleNetworkFileHandle
  | storageFull | timedOut | tooManyLinks | uncategorized | unexpectedEof | unsupported
  | wouldBlock | writeZero
deriving DecidableEq, Repr, Inhabited

namespace IoCause

def description : IoCause → String
  | addrInUse => "address in use"
  | addrNotAvailable => "address not available"
  | alreadyExists => "entity already exists"
  | argumentListTooLong => "argument list too long"
  | brokenPipe => "broken pipe"
  | connectionAborted => "connection aborted"
  | connectionRefused => "connection refused"
  | connectionReset => "connection reset"
  | crossesDevices => "cross-device link or rename"
  | deadlock => "deadlock"
  | directoryNotEmpty => "directory not empty"
  | executableFileBusy => "executable file busy"
  | fileTooLarge => "file too large"
  | filesystemLoop => "filesystem loop or indirection limit (e.g. symlink loop)"
  | hostUnreachable => "host unreachable"
  | inProgress => "in progress"
  | interrupted => "operation interrupted"
  | invalidData => "invalid data"
  | invalidFilename => "invalid filename"
  | invalidInput => "invalid input parameter"
  | isADirectory => "is a directory"
  | networkDown => "network down"
  | networkUnreachable => "network unreachable"
  | notADirectory => "not a directory"
  | notConnected => "not connected"
  | notFound => "entity not found"
  | notSeekable => "seek on unseekable file"
  | other => "other error"
  | outOfMemory => "out of memory"
  | permissionDenied => "permission denied"
  | quotaExceeded => "quota exceeded"
  | readOnlyFilesystem => "read-only filesystem or storage medium"
  | resourceBusy => "resource busy"
  | staleNetworkFileHandle => "stale network file handle"
  | storageFull => "no storage space"
  | timedOut => "timed out"
  | tooManyLinks => "too many links"
  | uncategorized => "uncategorized error"
  | unexpectedEof => "unexpected end of file"
  | unsupported => "unsupported"
  | wouldBlock => "operation would block"
  | writeZero => "write zero"

/-- Whether another attempt may succeed. -/
def isTransient : IoCause → Bool
  | interrupted | wouldBlock | timedOut | connectionReset | connectionAborted
  | brokenPipe => true
  | _ => false

end IoCause

/-- An error number of the operating system. -/
abbrev Errno := Nat

namespace Errno

/-- Number, cause and text of each error. -/
def table : List (Errno × IoCause × String) :=
  [(1, .permissionDenied, "Operation not permitted"),
    (2, .notFound, "No such file or directory"),
    (3, .uncategorized, "No such process"),
    (4, .interrupted, "Interrupted system call"),
    (5, .uncategorized, "Input/output error"),
    (6, .uncategorized, "No such device or address"),
    (7, .argumentListTooLong, "Argument list too long"),
    (8, .uncategorized, "Exec format error"),
    (9, .uncategorized, "Bad file descriptor"),
    (10, .uncategorized, "No child processes"),
    (11, .wouldBlock, "Resource temporarily unavailable"),
    (12, .outOfMemory, "Cannot allocate memory"),
    (13, .permissionDenied, "Permission denied"),
    (14, .uncategorized, "Bad address"),
    (15, .uncategorized, "Block device required"),
    (16, .resourceBusy, "Device or resource busy"),
    (17, .alreadyExists, "File exists"),
    (18, .crossesDevices, "Invalid cross-device link"),
    (19, .uncategorized, "No such device"),
    (20, .notADirectory, "Not a directory"),
    (21, .isADirectory, "Is a directory"),
    (22, .invalidInput, "Invalid argument"),
    (23, .uncategorized, "Too many open files in system"),
    (24, .uncategorized, "Too many open files"),
    (25, .uncategorized, "Inappropriate ioctl for device"),
    (26, .executableFileBusy, "Text file busy"),
    (27, .fileTooLarge, "File too large"),
    (28, .storageFull, "No space left on device"),
    (29, .notSeekable, "Illegal seek"),
    (30, .readOnlyFilesystem, "Read-only file system"),
    (31, .tooManyLinks, "Too many links"),
    (32, .brokenPipe, "Broken pipe"),
    (33, .uncategorized, "Numerical argument out of domain"),
    (34, .uncategorized, "Numerical result out of range"),
    (35, .deadlock, "Resource deadlock avoided"),
    (36, .invalidFilename, "File name too long"),
    (37, .uncategorized, "No locks available"),
    (38, .unsupported, "Function not implemented"),
    (39, .directoryNotEmpty, "Directory not empty"),
    (40, .filesystemLoop, "Too many levels of symbolic links"),
    (42, .uncategorized, "No message of desired type"),
    (43, .uncategorized, "Identifier removed"),
    (44, .uncategorized, "Channel number out of range"),
    (45, .uncategorized, "Level 2 not synchronized"),
    (46, .uncategorized, "Level 3 halted"),
    (47, .uncategorized, "Level 3 reset"),
    (48, .uncategorized, "Link number out of range"),
    (49, .uncategorized, "Protocol driver not attached"),
    (50, .uncategorized, "No CSI structure available"),
    (51, .uncategorized, "Level 2 halted"),
    (52, .uncategorized, "Invalid exchange"),
    (53, .uncategorized, "Invalid request descriptor"),
    (54, .uncategorized, "Exchange full"),
    (55, .uncategorized, "No anode"),
    (56, .uncategorized, "Invalid request code"),
    (57, .uncategorized, "Invalid slot"),
    (59, .uncategorized, "Bad font file format"),
    (60, .uncategorized, "Device not a stream"),
    (61, .uncategorized, "No data available"),
    (62, .uncategorized, "Timer expired"),
    (63, .uncategorized, "Out of streams resources"),
    (64, .uncategorized, "Machine is not on the network"),
    (65, .uncategorized, "Package not installed"),
    (66, .uncategorized, "Object is remote"),
    (67, .uncategorized, "Link has been severed"),
    (68, .uncategorized, "Advertise error"),
    (69, .uncategorized, "Srmount error"),
    (70, .uncategorized, "Communication error on send"),
    (71, .uncategorized, "Protocol error"),
    (72, .uncategorized, "Multihop attempted"),
    (73, .uncategorized, "RFS specific error"),
    (74, .uncategorized, "Bad message"),
    (75, .uncategorized, "Value too large for defined data type"),
    (76, .uncategorized, "Name not unique on network"),
    (77, .uncategorized, "File descriptor in bad state"),
    (78, .uncategorized, "Remote address changed"),
    (79, .uncategorized, "Can not access a needed shared library"),
    (80, .uncategorized, "Accessing a corrupted shared library"),
    (81, .uncategorized, ".lib section in a.out corrupted"),
    (82, .uncategorized, "Attempting to link in too many shared libraries"),
    (83, .uncategorized, "Cannot exec a shared library directly"),
    (84, .uncategorized, "Invalid or incomplete multibyte or wide character"),
    (85, .uncategorized, "Interrupted system call should be restarted"),
    (86, .uncategorized, "Streams pipe error"),
    (87, .uncategorized, "Too many users"),
    (88, .uncategorized, "Socket operation on non-socket"),
    (89, .uncategorized, "Destination address required"),
    (90, .uncategorized, "Message too long"),
    (91, .uncategorized, "Protocol wrong type for socket"),
    (92, .uncategorized, "Protocol not available"),
    (93, .uncategorized, "Protocol not supported"),
    (94, .uncategorized, "Socket type not supported"),
    (95, .unsupported, "Operation not supported"),
    (96, .uncategorized, "Protocol family not supported"),
    (97, .uncategorized, "Address family not supported by protocol"),
    (98, .addrInUse, "Address already in use"),
    (99, .addrNotAvailable, "Cannot assign requested address"),
    (100, .networkDown, "Network is down"),
    (101, .networkUnreachable, "Network is unreachable"),
    (102, .uncategorized, "Network dropped connection on reset"),
    (103, .connectionAborted, "Software caused connection abort"),
    (104, .connectionReset, "Connection reset by peer"),
    (105, .uncategorized, "No buffer space available"),
    (106, .uncategorized, "Transport endpoint is already connected"),
    (107, .notConnected, "Transport endpoint is not connected"),
    (108, .uncategorized, "Cannot send after transport endpoint shutdown"),
    (109, .uncategorized, "Too many references: cannot splice"),
    (110, .timedOut, "Connection timed out"),
    (111, .connectionRefused, "Connection refused"),
    (112, .uncategorized, "Host is down"),
    (113, .hostUnreachable, "No route to host"),
    (114, .uncategorized, "Operation already in progress"),
    (115, .inProgress, "Operation now in progress"),
    (116, .staleNetworkFileHandle, "Stale file handle"),
    (117, .uncategorized, "Structure needs cleaning"),
    (118, .uncategorized, "Not a XENIX named type file"),
    (119, .uncategorized, "No XENIX semaphores available"),
    (120, .uncategorized, "Is a named type file"),
    (121, .uncategorized, "Remote I/O error"),
    (122, .quotaExceeded, "Disk quota exceeded"),
    (123, .uncategorized, "No medium found"),
    (124, .uncategorized, "Wrong medium type"),
    (125, .uncategorized, "Operation canceled"),
    (126, .uncategorized, "Required key not available"),
    (127, .uncategorized, "Key has expired"),
    (128, .uncategorized, "Key has been revoked"),
    (129, .uncategorized, "Key was rejected by service"),
    (130, .uncategorized, "Owner died"),
    (131, .uncategorized, "State not recoverable"),
    (132, .uncategorized, "Operation not possible due to RF-kill"),
    (133, .uncategorized, "Memory page has hardware error")]

def noEntry : Errno := 2
def accessDenied : Errno := 13
def alreadyExists : Errno := 17
def notDirectory : Errno := 20
def isDirectory : Errno := 21
def nameTooLong : Errno := 36
def tooManyLinks : Errno := 40

def cause (errno : Errno) : IoCause :=
  match table.find? fun row => row.1 == errno with
  | some row => row.2.1
  | none => .uncategorized

def description (errno : Errno) : String :=
  match table.find? fun row => row.1 == errno with
  | some row => row.2.2
  | none =>
      if errno = 0 then "Success" else "Unknown error " ++ toString errno

end Errno

/-- A failed input or output operation. -/
inductive IoError
  | system (errno : Errno)
  | plain (cause : IoCause)
  | custom (cause : IoCause) (text : String)
deriving DecidableEq, Repr, Inhabited

namespace IoError

def cause : IoError → IoCause
  | system errno => errno.cause
  | plain cause => cause
  | custom cause _ => cause

def message : IoError → String
  | system errno => errno.description ++ " (os error " ++ toString errno ++ ")"
  | plain cause => cause.description
  | custom _ text => text

/-- A path that holds a NUL character. -/
def nulInPath : IoError :=
  custom .invalidInput "file name contained an unexpected NUL byte"

/-- Whether the named file does not exist. -/
def isNotFound (error : IoError) : Bool :=
  error.cause == .notFound

end IoError
end BulkTransfer
