/-!
Error numbers of the operating system and the two ways the shell spells them:
with the symbolic name in front, and as a plain sentence with the number behind.
-/
namespace JobShell

structure Errno where
  number : Int
  deriving DecidableEq, Repr, Inhabited

namespace Errno

def perm : Errno := ⟨1⟩
def noEntry : Errno := ⟨2⟩
def noProcess : Errno := ⟨3⟩
def interrupted : Errno := ⟨4⟩
def io : Errno := ⟨5⟩
def noDevice : Errno := ⟨6⟩
def tooBig : Errno := ⟨7⟩
def noExecFormat : Errno := ⟨8⟩
def badFile : Errno := ⟨9⟩
def noChild : Errno := ⟨10⟩
def access : Errno := ⟨13⟩
def busy : Errno := ⟨16⟩
def fileExists : Errno := ⟨17⟩
def wrongDevice : Errno := ⟨19⟩
def notDirectory : Errno := ⟨20⟩
def isDirectory : Errno := ⟨21⟩
def invalid : Errno := ⟨22⟩
def tooManyOpen : Errno := ⟨24⟩
def textBusy : Errno := ⟨26⟩
def noSpace : Errno := ⟨28⟩
def notTerminal : Errno := ⟨25⟩
def brokenPipe : Errno := ⟨32⟩
def nameTooLong : Errno := ⟨36⟩
def notEmpty : Errno := ⟨39⟩
def loop : Errno := ⟨40⟩
def timedOut : Errno := ⟨110⟩
def stale : Errno := ⟨116⟩

/-- How an error is spelled: its symbolic name, a description, and the sentence of the
C library, which often differs from the description. -/
structure Spelling where
  name : String
  description : String
  sentence : String

/-- An error with one text for both. -/
def Spelling.plain (name text : String) : Spelling := ⟨name, text, text⟩

/-- The known errors by number. -/
def table : List (Int × Spelling) :=
  [(1, .plain "EPERM" "Operation not permitted"),
   (2, .plain "ENOENT" "No such file or directory"),
   (3, .plain "ESRCH" "No such process"),
   (4, .plain "EINTR" "Interrupted system call"),
   (5, ⟨"EIO", "I/O error", "Input/output error"⟩),
   (6, .plain "ENXIO" "No such device or address"),
   (7, .plain "E2BIG" "Argument list too long"),
   (8, .plain "ENOEXEC" "Exec format error"),
   (9, ⟨"EBADF", "Bad file number", "Bad file descriptor"⟩),
   (10, .plain "ECHILD" "No child processes"),
   (11, ⟨"EAGAIN", "Try again", "Resource temporarily unavailable"⟩),
   (12, ⟨"ENOMEM", "Out of memory", "Cannot allocate memory"⟩),
   (13, .plain "EACCES" "Permission denied"),
   (14, .plain "EFAULT" "Bad address"),
   (15, .plain "ENOTBLK" "Block device required"),
   (16, .plain "EBUSY" "Device or resource busy"),
   (17, .plain "EEXIST" "File exists"),
   (18, ⟨"EXDEV", "Cross-device link", "Invalid cross-device link"⟩),
   (19, .plain "ENODEV" "No such device"),
   (20, .plain "ENOTDIR" "Not a directory"),
   (21, .plain "EISDIR" "Is a directory"),
   (22, .plain "EINVAL" "Invalid argument"),
   (23, ⟨"ENFILE", "File table overflow", "Too many open files in system"⟩),
   (24, .plain "EMFILE" "Too many open files"),
   (25, ⟨"ENOTTY", "Not a typewriter", "Inappropriate ioctl for device"⟩),
   (26, .plain "ETXTBSY" "Text file busy"),
   (27, .plain "EFBIG" "File too large"),
   (28, .plain "ENOSPC" "No space left on device"),
   (29, .plain "ESPIPE" "Illegal seek"),
   (30, .plain "EROFS" "Read-only file system"),
   (31, .plain "EMLINK" "Too many links"),
   (32, .plain "EPIPE" "Broken pipe"),
   (33, ⟨"EDOM", "Math argument out of domain of func", "Numerical argument out of domain"⟩),
   (34, ⟨"ERANGE", "Math result not representable", "Numerical result out of range"⟩),
   (35, ⟨"EDEADLK", "Resource deadlock would occur", "Resource deadlock avoided"⟩),
   (36, .plain "ENAMETOOLONG" "File name too long"),
   (37, ⟨"ENOLCK", "No record locks available", "No locks available"⟩),
   (38, .plain "ENOSYS" "Function not implemented"),
   (39, .plain "ENOTEMPTY" "Directory not empty"),
   (40, ⟨"ELOOP", "Too many symbolic links encountered", "Too many levels of symbolic links"⟩),
   (42, .plain "ENOMSG" "No message of desired type"),
   (43, .plain "EIDRM" "Identifier removed"),
   (44, .plain "ECHRNG" "Channel number out of range"),
   (45, .plain "EL2NSYNC" "Level 2 not synchronized"),
   (46, .plain "EL3HLT" "Level 3 halted"),
   (47, .plain "EL3RST" "Level 3 reset"),
   (48, .plain "ELNRNG" "Link number out of range"),
   (49, .plain "EUNATCH" "Protocol driver not attached"),
   (50, .plain "ENOCSI" "No CSI structure available"),
   (51, .plain "EL2HLT" "Level 2 halted"),
   (52, .plain "EBADE" "Invalid exchange"),
   (53, .plain "EBADR" "Invalid request descriptor"),
   (54, .plain "EXFULL" "Exchange full"),
   (55, .plain "ENOANO" "No anode"),
   (56, .plain "EBADRQC" "Invalid request code"),
   (57, .plain "EBADSLT" "Invalid slot"),
   (59, .plain "EBFONT" "Bad font file format"),
   (60, .plain "ENOSTR" "Device not a stream"),
   (61, .plain "ENODATA" "No data available"),
   (62, .plain "ETIME" "Timer expired"),
   (63, .plain "ENOSR" "Out of streams resources"),
   (64, .plain "ENONET" "Machine is not on the network"),
   (65, .plain "ENOPKG" "Package not installed"),
   (66, .plain "EREMOTE" "Object is remote"),
   (67, .plain "ENOLINK" "Link has been severed"),
   (68, .plain "EADV" "Advertise error"),
   (69, .plain "ESRMNT" "Srmount error"),
   (70, .plain "ECOMM" "Communication error on send"),
   (71, .plain "EPROTO" "Protocol error"),
   (72, .plain "EMULTIHOP" "Multihop attempted"),
   (73, .plain "EDOTDOT" "RFS specific error"),
   (74, ⟨"EBADMSG", "Not a data message", "Bad message"⟩),
   (75, .plain "EOVERFLOW" "Value too large for defined data type"),
   (76, .plain "ENOTUNIQ" "Name not unique on network"),
   (77, .plain "EBADFD" "File descriptor in bad state"),
   (78, .plain "EREMCHG" "Remote address changed"),
   (79, .plain "ELIBACC" "Can not access a needed shared library"),
   (80, .plain "ELIBBAD" "Accessing a corrupted shared library"),
   (81, .plain "ELIBSCN" ".lib section in a.out corrupted"),
   (82, .plain "ELIBMAX" "Attempting to link in too many shared libraries"),
   (83, .plain "ELIBEXEC" "Cannot exec a shared library directly"),
   (84, ⟨"EILSEQ", "Illegal byte sequence",
     "Invalid or incomplete multibyte or wide character"⟩),
   (85, .plain "ERESTART" "Interrupted system call should be restarted"),
   (86, .plain "ESTRPIPE" "Streams pipe error"),
   (87, .plain "EUSERS" "Too many users"),
   (88, .plain "ENOTSOCK" "Socket operation on non-socket"),
   (89, .plain "EDESTADDRREQ" "Destination address required"),
   (90, .plain "EMSGSIZE" "Message too long"),
   (91, .plain "EPROTOTYPE" "Protocol wrong type for socket"),
   (92, .plain "ENOPROTOOPT" "Protocol not available"),
   (93, .plain "EPROTONOSUPPORT" "Protocol not supported"),
   (94, .plain "ESOCKTNOSUPPORT" "Socket type not supported"),
   (95, ⟨"EOPNOTSUPP", "Operation not supported on transport endpoint",
     "Operation not supported"⟩),
   (96, .plain "EPFNOSUPPORT" "Protocol family not supported"),
   (97, .plain "EAFNOSUPPORT" "Address family not supported by protocol"),
   (98, .plain "EADDRINUSE" "Address already in use"),
   (99, .plain "EADDRNOTAVAIL" "Cannot assign requested address"),
   (100, .plain "ENETDOWN" "Network is down"),
   (101, .plain "ENETUNREACH" "Network is unreachable"),
   (102, ⟨"ENETRESET", "Network dropped connection because of reset",
     "Network dropped connection on reset"⟩),
   (103, .plain "ECONNABORTED" "Software caused connection abort"),
   (104, .plain "ECONNRESET" "Connection reset by peer"),
   (105, .plain "ENOBUFS" "No buffer space available"),
   (106, .plain "EISCONN" "Transport endpoint is already connected"),
   (107, .plain "ENOTCONN" "Transport endpoint is not connected"),
   (108, .plain "ESHUTDOWN" "Cannot send after transport endpoint shutdown"),
   (109, .plain "ETOOMANYREFS" "Too many references: cannot splice"),
   (110, .plain "ETIMEDOUT" "Connection timed out"),
   (111, .plain "ECONNREFUSED" "Connection refused"),
   (112, .plain "EHOSTDOWN" "Host is down"),
   (113, .plain "EHOSTUNREACH" "No route to host"),
   (114, .plain "EALREADY" "Operation already in progress"),
   (115, .plain "EINPROGRESS" "Operation now in progress"),
   (116, .plain "ESTALE" "Stale file handle"),
   (117, .plain "EUCLEAN" "Structure needs cleaning"),
   (118, .plain "ENOTNAM" "Not a XENIX named type file"),
   (119, .plain "ENAVAIL" "No XENIX semaphores available"),
   (120, .plain "EISNAM" "Is a named type file"),
   (121, .plain "EREMOTEIO" "Remote I/O error"),
   (122, ⟨"EDQUOT", "Quota exceeded", "Disk quota exceeded"⟩),
   (123, .plain "ENOMEDIUM" "No medium found"),
   (124, .plain "EMEDIUMTYPE" "Wrong medium type"),
   (125, .plain "ECANCELED" "Operation canceled"),
   (126, .plain "ENOKEY" "Required key not available"),
   (127, .plain "EKEYEXPIRED" "Key has expired"),
   (128, .plain "EKEYREVOKED" "Key has been revoked"),
   (129, .plain "EKEYREJECTED" "Key was rejected by service"),
   (130, .plain "EOWNERDEAD" "Owner died"),
   (131, .plain "ENOTRECOVERABLE" "State not recoverable"),
   (132, .plain "ERFKILL" "Operation not possible due to RF-kill"),
   (133, .plain "EHWPOISON" "Memory page has hardware error")]

def spelling? (e : Errno) : Option Spelling := table.lookup e.number

def name (e : Errno) : String := (e.spelling?.map Spelling.name).getD "UnknownErrno"

def description (e : Errno) : String :=
  (e.spelling?.map Spelling.description).getD "Unknown errno"

/-- The symbolic name, a colon and the description. -/
def labelled (e : Errno) : String := s!"{e.name}: {e.description}"

def sentence (e : Errno) : String :=
  (e.spelling?.map Spelling.sentence).getD s!"Unknown error {e.number}"

/-- The sentence, followed by the number in brackets. -/
def numbered (e : Errno) : String := s!"{e.sentence} (os error {e.number})"

end Errno

end JobShell
